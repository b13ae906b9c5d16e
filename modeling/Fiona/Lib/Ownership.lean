import Mathlib.Data.Sum.Basic
import Mathlib.Logic.Function.Basic
import Mathlib.Tactic.Common

/-!
# Exactly one owner

A *resource* – a block of memory, a descriptor, a slot of a table – is held by
*owners*, and what is wanted is that each live resource has exactly one. The
relation `H o n` says that the owner `o` holds the resource `n`;
`Ownership.ExactlyOne` is the property.

An operation moves resources between owners. It is described by a function
`φ : N → O → Option O` that says where the resource goes when its owner before
was given: `some o'` is a change of hands (or none, if `o'` is the same owner), and
`none` gives the resource up. Whatever `φ` does, no resource gets a second owner
(`Ownership.ExactlyOne.move`), which is why no operation has to argue about the
resources it does not touch. An owner that gives up everything it holds is the case
`Ownership.ExactlyOne.release`, a single resource that changes hands is the case
`Ownership.ExactlyOne.transfer`, and the other way in is a resource that nobody held
(`Ownership.ExactlyOne.acquire`).

Owners of two kinds can share what is free. To those of one kind, what belongs to the other kind is
as good as free (`Ownership.beside`), so that whatever is known of one kind on its own can be used
(`Ownership.ExactlyOne.beside`); and what one kind does then goes over to both, as long as it leaves
alone what belongs to the others (`Ownership.ExactlyOne.of_beside`).
-/

namespace Ownership

variable {O N : Type*} {H H' : O → N → Prop} {live live' : N → Prop}

/-- **Every live resource has exactly one owner**, and no other resource has any. -/
structure ExactlyOne (H : O → N → Prop) (live : N → Prop) : Prop where
  unique : ∀ {n o o'}, H o n → H o' n → o = o'
  live_iff : ∀ n, live n ↔ ∃ o, H o n

theorem ExactlyOne.existsUnique (h : ExactlyOne H live) {n : N} (hn : live n) : ∃! o, H o n := by
  obtain ⟨o, ho⟩ := (h.live_iff n).mp hn
  exact ⟨o, ho, fun o' ho' => h.unique ho' ho⟩

theorem ExactlyOne.live_of_held (h : ExactlyOne H live) {o : O} {n : N} (hn : H o n) : live n :=
  (h.live_iff n).mpr ⟨o, hn⟩

/-- **Moving resources between owners**: if the new owner of a resource is a
function of its old owner, nothing is owned twice. -/
theorem ExactlyOne.move (h : ExactlyOne H live) (φ : N → O → Option O)
    (hH : ∀ o n, H' o n ↔ ∃ o₀, H o₀ n ∧ φ n o₀ = some o)
    (hlive : ∀ n, live' n ↔ ∃ o₀, H o₀ n ∧ (φ n o₀).isSome) : ExactlyOne H' live' where
  unique := by
    intro n o o' ho ho'
    obtain ⟨o₁, h1, he⟩ := (hH o n).mp ho
    obtain ⟨o₂, h2, he'⟩ := (hH o' n).mp ho'
    rw [h.unique h1 h2, he'] at he
    exact (Option.some.inj he).symm
  live_iff := by
    intro n
    rw [hlive]
    constructor
    · rintro ⟨o₀, ho₀, hsome⟩
      obtain ⟨o, ho⟩ := Option.isSome_iff_exists.mp hsome
      exact ⟨o, (hH o n).mpr ⟨o₀, ho₀, ho⟩⟩
    · rintro ⟨o, ho⟩
      obtain ⟨o₀, ho₀, he⟩ := (hH o n).mp ho
      exact ⟨o₀, ho₀, by rw [he]; rfl⟩

/-- Nothing changes hands. -/
theorem ExactlyOne.congr (h : ExactlyOne H live) (hH : ∀ o n, H' o n ↔ H o n)
    (hlive : ∀ n, live' n ↔ live n) : ExactlyOne H' live' where
  unique := fun ho ho' => h.unique ((hH _ _).mp ho) ((hH _ _).mp ho')
  live_iff := by
    intro n
    rw [hlive, h.live_iff]
    exact exists_congr fun o => (hH o n).symm

/-- **A lost resource**: nobody holds it after, if whoever does held it before as well, beside the
owner it had. -/
theorem ExactlyOne.unheld (h : ExactlyOne H live) {o : O} {n : N} (ho : H o n)
    (hH : ∀ o', H' o' n → o' ≠ o ∧ H o' n) : ¬∃ o', H' o' n := by
  rintro ⟨o', ho'⟩
  obtain ⟨hne, hold⟩ := hH o' ho'
  exact hne (h.unique hold ho)

/-- **Releasing** everything one owner holds. -/
theorem ExactlyOne.release [DecidableEq O] (h : ExactlyOne H live) {o : O}
    (hH : ∀ o' n, H' o' n ↔ o' ≠ o ∧ H o' n) (hlive : ∀ n, live' n ↔ live n ∧ ¬H o n) :
    ExactlyOne H' live' := by
  refine h.move (fun _ o' => if o' = o then none else some o') (fun o' n => ?_) fun n => ?_
  · rw [hH]
    constructor
    · rintro ⟨hne, ho'⟩
      exact ⟨o', ho', if_neg hne⟩
    · rintro ⟨o₀, ho₀, he⟩
      split_ifs at he with hne
      obtain rfl := Option.some.inj he
      exact ⟨hne, ho₀⟩
  · rw [hlive, h.live_iff]
    constructor
    · rintro ⟨⟨o', ho'⟩, hno⟩
      have hne : o' ≠ o := by
        rintro rfl
        exact hno ho'
      exact ⟨o', ho', by rw [if_neg hne]; rfl⟩
    · rintro ⟨o₀, ho₀, he⟩
      split_ifs at he with hne
      · exact absurd he (by simp)
      · exact ⟨⟨o₀, ho₀⟩, fun ho => hne (h.unique ho₀ ho)⟩

/-- **Acquiring a resource** that nobody held. -/
theorem ExactlyOne.acquire (h : ExactlyOne H live) {o : O} {k : N} (hk : ¬live k)
    (hH : ∀ o' n, H' o' n ↔ H o' n ∨ (o' = o ∧ n = k))
    (hlive : ∀ n, live' n ↔ live n ∨ n = k) : ExactlyOne H' live' where
  unique := by
    have hno : ∀ o', ¬H o' k := fun o' ho' => hk (h.live_of_held ho')
    intro n o₁ o₂ h1 h2
    rcases (hH _ _).mp h1 with h1 | ⟨rfl, rfl⟩ <;> rcases (hH _ _).mp h2 with h2 | ⟨rfl, h2⟩
    · exact h.unique h1 h2
    · exact absurd (h2 ▸ h1) (hno _)
    · exact absurd h2 (hno _)
    · rfl
  live_iff := by
    intro n
    rw [hlive, h.live_iff]
    constructor
    · rintro (⟨o', ho'⟩ | rfl)
      · exact ⟨o', (hH _ _).mpr (Or.inl ho')⟩
      · exact ⟨o, (hH _ _).mpr (Or.inr ⟨rfl, rfl⟩)⟩
    · rintro ⟨o', ho'⟩
      rcases (hH _ _).mp ho' with ho' | ⟨-, rfl⟩
      · exact Or.inl ⟨o', ho'⟩
      · exact Or.inr rfl

/-- **Handing one resource over.** -/
theorem ExactlyOne.transfer (h : ExactlyOne H live) {p q : O} {k : N} (hp : H p k)
    (hH : ∀ o n, H' o n ↔ n ≠ k ∧ H o n ∨ n = k ∧ o = q) : ExactlyOne H' live := by
  classical
  refine h.move (fun n o => if n = k then some q else some o) (fun o n => ?_) fun n => ?_
  · rw [hH]
    constructor
    · rintro (⟨hne, ho⟩ | ⟨rfl, rfl⟩)
      · exact ⟨o, ho, if_neg hne⟩
      · exact ⟨p, hp, if_pos rfl⟩
    · rintro ⟨o₀, ho₀, he⟩
      split_ifs at he with hne
      · exact .inr ⟨hne, (Option.some.inj he).symm⟩
      · exact .inl ⟨hne, Option.some.inj he ▸ ho₀⟩
  · rw [h.live_iff]
    refine exists_congr fun o => (and_iff_left ?_).symm
    split_ifs <;> rfl

/-! ### Owners of two kinds -/

section Beside

variable {A B : Type*} {H H' : Option (A ⊕ B) → N → Prop}

/-- Who owns what in the eyes of the first kind; `none` is the place of what is free. -/
def beside (H : Option (A ⊕ B) → N → Prop) : Option A → N → Prop
  | none, n => H none n ∨ ∃ b, H (some (.inr b)) n
  | some a, n => H (some (.inl a)) n

/-- The two kinds change places. -/
def swap (H : Option (A ⊕ B) → N → Prop) (o : Option (B ⊕ A)) (n : N) : Prop :=
  H (o.map Sum.swap) n

theorem ExactlyOne.swap (h : ExactlyOne H live) : ExactlyOne (swap H) live where
  unique ho ho' := Option.map_injective Sum.swap_leftInverse.injective (h.unique ho ho')
  live_iff := by
    intro n
    rw [h.live_iff]
    constructor
    · rintro ⟨o, ho⟩
      refine ⟨o.map Sum.swap, ?_⟩
      rwa [Ownership.swap, Option.map_map, Sum.swap_swap_eq, Option.map_id]
    · rintro ⟨o, ho⟩
      exact ⟨_, ho⟩

/-- **Where both kinds own each resource once, so does one in its own eyes.** -/
theorem ExactlyOne.beside (h : ExactlyOne H live) : ExactlyOne (beside H) live where
  unique := by
    rintro n (_ | a) (_ | a') ho ho'
    · rfl
    · rcases ho with ho | ⟨b, ho⟩ <;> cases h.unique ho ho'
    · rcases ho' with ho' | ⟨b, ho'⟩ <;> cases h.unique ho ho'
    · cases h.unique ho ho'
      rfl
  live_iff := by
    intro n
    rw [h.live_iff]
    constructor
    · rintro ⟨_ | a | b, ho⟩
      · exact ⟨none, .inl ho⟩
      · exact ⟨some a, ho⟩
      · exact ⟨none, .inr ⟨b, ho⟩⟩
    · rintro ⟨_ | a, ho⟩
      · rcases ho with ho | ⟨b, ho⟩
        · exact ⟨none, ho⟩
        · exact ⟨some (.inr b), ho⟩
      · exact ⟨some (.inl a), ho⟩

/-- **What one kind does on its own** leaves every resource with one owner, if the others own what
they did and none of it is free. -/
theorem ExactlyOne.of_beside (h : ExactlyOne H live) (h' : ExactlyOne (Ownership.beside H') live)
    (hsame : ∀ b n, H' (some (.inr b)) n ↔ H (some (.inr b)) n)
    (hfree : ∀ b n, H' none n → ¬H (some (.inr b)) n) : ExactlyOne H' live where
  unique := by
    have hother : ∀ {n a b}, H' (some (.inl a)) n → ¬H' (some (.inr b)) n := by
      intro n a b ho ho'
      have hheld : Ownership.beside H' (some a) n := ho
      have hnone : Ownership.beside H' none n := .inr ⟨b, ho'⟩
      cases h'.unique hheld hnone
    rintro n (_ | a | b) (_ | a' | b') ho ho'
    · rfl
    · have hnone : Ownership.beside H' none n := .inl ho
      have hheld : Ownership.beside H' (some a') n := ho'
      cases h'.unique hnone hheld
    · exact absurd ((hsame b' n).mp ho') (hfree b' n ho)
    · have hheld : Ownership.beside H' (some a) n := ho
      have hnone : Ownership.beside H' none n := .inl ho'
      cases h'.unique hheld hnone
    · have hheld : Ownership.beside H' (some a) n := ho
      have hheld' : Ownership.beside H' (some a') n := ho'
      cases h'.unique hheld hheld'
      rfl
    · exact absurd ho' (hother ho)
    · exact absurd ((hsame b n).mp ho) (hfree b n ho')
    · exact absurd ho (hother ho')
    · exact h.unique ((hsame b n).mp ho) ((hsame b' n).mp ho')
  live_iff := by
    intro n
    rw [h'.live_iff]
    constructor
    · rintro ⟨_ | a, ho⟩
      · rcases ho with ho | ⟨b, ho⟩
        · exact ⟨none, ho⟩
        · exact ⟨some (.inr b), ho⟩
      · exact ⟨some (.inl a), ho⟩
    · rintro ⟨_ | a | b, ho⟩
      · exact ⟨none, .inl ho⟩
      · exact ⟨some a, ho⟩
      · exact ⟨none, .inr ⟨b, ho⟩⟩

end Beside

end Ownership
