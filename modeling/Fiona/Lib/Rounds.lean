import Mathlib.Data.List.Basic
import Mathlib.Logic.Basic

/-!
# A loop that draws on an input which ends

A loop tests whether it is over, and reads another piece of input if it is not. The input is a list
of pieces and, once those are used up, one and the same piece again and again, as a connection
that was closed yields it. Whether such a loop ends is a matter of what it makes of that last
piece: `Rounds.ends_iff` takes it one round further, and `Rounds.rounds_eq_none` is the rule for
loops that never end.
-/

namespace Rounds

variable {ι σ ρ : Type*}

/-- The loop in at most so many rounds, with its result if it ends: `stop` is its test, `read` what
it does with a piece, and `last` the piece there is at the end of the input. -/
def rounds (stop : σ → Option ρ) (read : σ → ι → Except ρ σ) (last : ι) :
    Nat → List ι → σ → Option ρ
  | 0, _, _ => none
  | k + 1, xs, s =>
    match stop s with
    | some r => some r
    | none =>
      match read s (xs.headD last) with
      | .error r => some r
      | .ok s' => rounds stop read last k xs.tail s'

variable {stop : σ → Option ρ} {read : σ → ι → Except ρ σ} {last : ι} {k : Nat} {xs : List ι}
  {s : σ} {r : ρ}

/-- The loop ends, and with this result. -/
def Ends (stop : σ → Option ρ) (read : σ → ι → Except ρ σ) (last : ι) (xs : List ι) (s : σ)
    (r : ρ) : Prop := ∃ k, rounds stop read last k xs s = some r

/-- **One round**: the loop ends if its test or what it reads ends it, or if it goes on and ends. -/
theorem ends_iff :
    Ends stop read last xs s r ↔
      stop s = some r ∨ stop s = none ∧ (read s (xs.headD last) = .error r ∨
        ∃ s', read s (xs.headD last) = .ok s' ∧ Ends stop read last xs.tail s' r) := by
  constructor
  · rintro ⟨k, hk⟩
    cases k with
    | zero => exact absurd hk (by simp [rounds])
    | succ k =>
      rw [rounds] at hk
      cases hstop : stop s with
      | some r' =>
        rw [hstop] at hk
        exact .inl hk
      | none =>
        rw [hstop] at hk
        refine .inr ⟨rfl, ?_⟩
        cases hread : read s (xs.headD last) with
        | error r' =>
          rw [hread] at hk
          exact .inl (congrArg _ (Option.some.inj hk))
        | ok s' =>
          rw [hread] at hk
          exact .inr ⟨s', rfl, k, hk⟩
  · rintro (hstop | ⟨hstop, hread | ⟨s', hread, k, hk⟩⟩)
    · exact ⟨1, by rw [rounds, hstop]⟩
    · exact ⟨1, by rw [rounds, hstop, hread]⟩
    · exact ⟨k + 1, by rw [rounds, hstop, hread]; exact hk⟩

/-- A result comes from the test or from what was read. -/
theorem exists_of_rounds (h : rounds stop read last k xs s = some r) :
    ∃ s, stop s = some r ∨ ∃ x, read s x = .error r := by
  induction k generalizing xs s with
  | zero => exact absurd h (by simp [rounds])
  | succ k ih =>
    rw [rounds] at h
    cases hstop : stop s with
    | some r' =>
      rw [hstop] at h
      exact ⟨s, .inl (hstop.trans h)⟩
    | none =>
      rw [hstop] at h
      cases hread : read s (xs.headD last) with
      | error r' =>
        rw [hread] at h
        exact ⟨s, .inr ⟨_, hread.trans (congrArg _ (Option.some.inj h))⟩⟩
      | ok s' =>
        rw [hread] at h
        exact ih h

/-- **The rule for loops that never end**: a round neither ends them nor leaves the invariant. -/
theorem rounds_eq_none {I : List ι → σ → Prop}
    (hround : ∀ xs s, I xs s → stop s = none ∧
      ∃ s', read s (xs.headD last) = .ok s' ∧ I xs.tail s')
    (hI : I xs s) : rounds stop read last k xs s = none := by
  induction k generalizing xs s with
  | zero => rfl
  | succ k ih =>
    obtain ⟨hstop, s', hread, hI'⟩ := hround xs s hI
    rw [rounds, hstop]
    dsimp only
    rw [hread]
    exact ih hI'

end Rounds
