import Mathlib.Data.Int.GCD
import Mathlib.Data.Nat.GCD.Basic
import Mathlib.Tactic.Common
import Mathlib.Tactic.Ring

/-!
# Durations with 64-bit counts

The durations of `std::chrono`: an integer count of a period, which is a rational number of
seconds. Conversions, comparisons and differences are those of the standard. They compute in a
common integer type, and where an intermediate result does not fit into its type there is none
(`Chrono.Rep.checked`): in a signed type the behaviour would be undefined, and in an unsigned one
the value another.

Of a duration that is not negative the conversion is one multiplication and one division, whatever
the period (`Chrono.Duration.durationCast_eq_some`), and rounding down to seconds is no more than
the conversion (`Chrono.Duration.floor_eq_durationCast`).
-/

namespace Chrono

/-! ### Integer types -/

/-- The 64-bit integer types. -/
inductive Rep
  | int64
  | uint64
  deriving DecidableEq, Repr

namespace Rep

/-- The values of the type. -/
def Holds : Rep → Int → Prop
  | int64, x => -2 ^ 63 ≤ x ∧ x < 2 ^ 63
  | uint64, x => 0 ≤ x ∧ x < 2 ^ 64

instance : (r : Rep) → (x : Int) → Decidable (r.Holds x)
  | int64, _ => inferInstanceAs (Decidable (_ ∧ _))
  | uint64, _ => inferInstanceAs (Decidable (_ ∧ _))

/-- The type that both are converted to. -/
def common : Rep → Rep → Rep
  | int64, int64 => int64
  | int64, uint64 | uint64, int64 | uint64, uint64 => uint64

/-- A value that has to fit. -/
def checked (r : Rep) (x : Int) : Option Int := if r.Holds x then some x else none

variable {r r' : Rep} {x y : Int}

@[simp] theorem common_int64 : r.common int64 = r := by cases r <;> rfl

@[simp] theorem int64_common : int64.common r = r := by cases r <;> rfl

@[simp] theorem common_self : r.common r = r := by cases r <;> rfl

@[simp] theorem checked_eq_some : r.checked x = some y ↔ r.Holds x ∧ x = y :=
  Option.ite_none_right_eq_some.trans (and_congr_right' Option.some_inj)

/-- What is less fits too. -/
theorem Holds.mono (h : r.Holds x) (hy : 0 ≤ y) (hle : y ≤ x) : r.Holds y := by
  cases r <;> simp only [Holds] at * <;> omega

theorem Holds.common (h : r.Holds x) (hx : 0 ≤ x) : (r'.common r).Holds x := by
  cases r <;> cases r' <;> simp only [Rep.common, Holds] at * <;> omega

/-- What fits into either type. -/
theorem holds_of_lt (hx : 0 ≤ x) (h : x < 2 ^ 63) : r.Holds x := by
  cases r <;> simp only [Holds] <;> omega

end Rep

/-! ### Periods -/

/-- `std::ratio`, positive and in lowest terms. -/
structure Ratio where
  num : Nat
  den : Nat
  num_pos : 0 < num
  den_pos : 0 < den
  coprime : Nat.Coprime num den

namespace Ratio

/-- A ratio, brought to lowest terms. -/
def reduce (n d : Nat) (hn : 0 < n) (hd : 0 < d) : Ratio where
  num := n / n.gcd d
  den := d / n.gcd d
  num_pos := Nat.div_pos (Nat.gcd_le_left d hn) (Nat.gcd_pos_of_pos_left d hn)
  den_pos := Nat.div_pos (Nat.gcd_le_right n hd) (Nat.gcd_pos_of_pos_left d hn)
  coprime := Nat.coprime_div_gcd_div_gcd (Nat.gcd_pos_of_pos_left d hn)

variable (p q : Ratio)

/-- `std::ratio_divide`. -/
def divide : Ratio :=
  reduce (p.num * q.den) (p.den * q.num) (Nat.mul_pos p.num_pos q.den_pos)
    (Nat.mul_pos p.den_pos q.num_pos)

/-- The period that both are multiples of. -/
def common : Ratio where
  num := p.num.gcd q.num
  den := p.den.lcm q.den
  num_pos := Nat.gcd_pos_of_pos_left _ p.num_pos
  den_pos := Nat.lcm_pos p.den_pos q.den_pos
  coprime := by
    have hp := Nat.Coprime.coprime_dvd_left (Nat.gcd_dvd_left p.num q.num) p.coprime
    have hq := Nat.Coprime.coprime_dvd_left (Nat.gcd_dvd_right p.num q.num) q.coprime
    exact Nat.Coprime.coprime_dvd_right (Nat.lcm_dvd_mul p.den q.den) (hp.mul_right hq)

def second : Ratio := ⟨1, 1, by decide, by decide, by decide⟩

def nano : Ratio := ⟨1, 10 ^ 9, by decide, by decide, by decide⟩

variable {p q}

theorem second_num : second.num = 1 := rfl

theorem second_den : second.den = 1 := rfl

theorem cast_den_pos : (0 : Int) < p.den := by exact_mod_cast p.den_pos

/-- What is in lowest terms but for a common factor. -/
theorem reduce_mul {n d k : Nat} (h : Nat.Coprime n d) (hk : 0 < k) (hn : 0 < n * k)
    (hd : 0 < d * k) :
    (reduce (n * k) (d * k) hn hd).num = n ∧ (reduce (n * k) (d * k) hn hd).den = d := by
  have hgcd : (n * k).gcd (d * k) = k := by rw [Nat.gcd_mul_right, h.gcd_eq_one, Nat.one_mul]
  simp only [reduce, hgcd, Nat.mul_div_cancel _ hk, and_self]

/-- A reduced ratio multiplies and divides like the ratio itself. -/
theorem mul_reduce_ediv {n d : Nat} (hn : 0 < n) (hd : 0 < d) (x : Int) :
    x * (reduce n d hn hd).num / (reduce n d hn hd).den = x * n / d := by
  have hg : (0 : Int) < n.gcd d := by exact_mod_cast Nat.gcd_pos_of_pos_left d hn
  have hnum : ((n / n.gcd d : Nat) : Int) * n.gcd d = n := by
    exact_mod_cast Nat.div_mul_cancel (Nat.gcd_dvd_left n d)
  have hden : ((d / n.gcd d : Nat) : Int) * n.gcd d = d := by
    exact_mod_cast Nat.div_mul_cancel (Nat.gcd_dvd_right n d)
  calc x * (n / n.gcd d : Nat) / (d / n.gcd d : Nat)
    _ = x * (n / n.gcd d : Nat) * n.gcd d / ((d / n.gcd d : Nat) * n.gcd d) :=
      (Int.mul_ediv_mul_of_pos_left _ _ hg).symm
    _ = x * n / d := by rw [Int.mul_assoc, hnum, hden]

theorem divide_second : (p.divide second).num = p.num ∧ (p.divide second).den = p.den :=
  reduce_mul p.coprime Nat.one_pos _ _

theorem common_second_num : (p.common second).num = 1 := Nat.gcd_one_right _

theorem common_second_den : (p.common second).den = p.den := Nat.lcm_one_right _

/-- A period is a multiple of the common one with seconds. -/
theorem divide_common_second :
    (p.divide (p.common second)).num = p.num ∧ (p.divide (p.common second)).den = 1 := by
  have h := reduce_mul (Nat.coprime_one_right p.num) p.den_pos (Nat.mul_pos p.num_pos p.den_pos)
    (by simpa using p.den_pos)
  simpa only [divide, common_second_num, common_second_den, Nat.mul_one, Nat.one_mul] using h

theorem second_divide_common :
    (second.divide (p.common second)).num = p.den ∧
      (second.divide (p.common second)).den = 1 := by
  have h := reduce_mul (Nat.coprime_one_right p.den) Nat.one_pos (by simpa using p.den_pos)
    (by decide)
  simpa only [divide, second_num, second_den, common_second_num, common_second_den, Nat.mul_one,
    Nat.one_mul] using h

/-- The factor of a conversion to nanoseconds from the common period with seconds. -/
theorem common_divide_nano_num :
    ((p.common second).divide nano).num = 10 ^ 9 / (10 ^ 9).gcd p.den := by
  rw [divide, reduce]
  simp only [common_second_num, common_second_den, nano, Nat.one_mul, Nat.mul_one]

theorem mul_common_divide_nano (x : Int) :
    x * ((p.common second).divide nano).num / ((p.common second).divide nano).den =
      x * 10 ^ 9 / p.den := by
  rw [divide, mul_reduce_ediv, common_second_num, common_second_den]
  simp [nano]

end Ratio

/-! ### Durations -/

/-- `std::chrono::duration`. -/
structure Duration (r : Rep) (p : Ratio) where
  count : Int
  holds : r.Holds count

namespace Duration

variable {r r' : Rep} {p p' : Ratio}

/-- A duration with a count that has to fit. -/
def ofCount (r : Rep) (p : Ratio) (x : Int) : Option (Duration r p) :=
  if h : r.Holds x then some ⟨x, h⟩ else none

/-- `std::chrono::duration_cast`. Factors of one are left out. -/
def durationCast (r' : Rep) (p' : Ratio) (d : Duration r p) : Option (Duration r' p') :=
  let cf := p.divide p'
  let cr := (r'.common r).common .int64
  if cf.num = 1 ∧ cf.den = 1 then ofCount r' p' d.count
  else do
    let c ← cr.checked d.count
    if cf.num = 1 then ofCount r' p' (c.tdiv cf.den)
    else do
      let x ← cr.checked (c * cf.num)
      if cf.den = 1 then ofCount r' p' x else ofCount r' p' (x.tdiv cf.den)

/-- `operator<`, in the common type. -/
def lt (d : Duration r p) (e : Duration r' p') : Option Bool := do
  let a ← d.durationCast (r.common r') (p.common p')
  let b ← e.durationCast (r.common r') (p.common p')
  some (decide (a.count < b.count))

/-- `operator+`. -/
def add (d : Duration r p) (e : Duration r' p') :
    Option (Duration (r.common r') (p.common p')) := do
  let a ← d.durationCast (r.common r') (p.common p')
  let b ← e.durationCast (r.common r') (p.common p')
  ofCount _ _ (a.count + b.count)

/-- `operator-`. -/
def sub (d : Duration r p) (e : Duration r' p') :
    Option (Duration (r.common r') (p.common p')) := do
  let a ← d.durationCast (r.common r') (p.common p')
  let b ← e.durationCast (r.common r') (p.common p')
  ofCount _ _ (a.count - b.count)

/-- `std::chrono::floor`. -/
def floor (r' : Rep) (p' : Ratio) (d : Duration r p) : Option (Duration r' p') := do
  let e ← d.durationCast r' p'
  if ← d.lt e then ofCount r' p' (e.count - 1) else some e

variable {d : Duration r p} {e : Duration r' p'} {x : Int} {b : Bool}

@[simp] theorem ofCount_eq_some : ofCount r p x = some d ↔ d.count = x := by
  rw [ofCount]
  constructor
  · intro h
    split_ifs at h
    rw [← Option.some.inj h]
  · rintro rfl
    rw [dif_pos d.holds]

/-- A conversion to the same period changes nothing but the type. -/
theorem durationCast_of_divide (hnum : (p.divide p').num = 1) (hden : (p.divide p').den = 1) :
    d.durationCast r' p' = ofCount r' p' d.count := if_pos ⟨hnum, hden⟩

/-- **A duration that is not negative** is converted by one multiplication and one division. -/
theorem durationCast_eq_some (hd : 0 ≤ d.count) : d.durationCast r' p' = some e ↔
    (r'.common r).Holds (d.count * (p.divide p').num) ∧
      e.count = d.count * (p.divide p').num / (p.divide p').den := by
  have hcr : (r'.common r).Holds d.count := d.holds.common hd
  have hchecked : (r'.common r).checked d.count = some d.count := Rep.checked_eq_some.mpr ⟨hcr, rfl⟩
  rw [durationCast, Rep.common_int64]
  by_cases hnum : (p.divide p').num = 1
  · by_cases hden : (p.divide p').den = 1
    · rw [if_pos ⟨hnum, hden⟩, ofCount_eq_some, hnum, hden]
      simp [hcr]
    · rw [if_neg (fun h => hden h.2), hchecked, hnum]
      simp [hcr, Int.tdiv_eq_ediv_of_nonneg hd]
  · rw [if_neg (fun h => hnum h.1), hchecked]
    simp only [Option.bind_eq_bind, Option.bind_some, if_neg hnum, Option.bind_eq_some_iff,
      Rep.checked_eq_some]
    have hx : 0 ≤ d.count * (p.divide p').num := Int.mul_nonneg hd (Int.natCast_nonneg _)
    by_cases hden : (p.divide p').den = 1
    · simp [hden]
    · simp [hden, Int.tdiv_eq_ediv_of_nonneg hx]

section

variable {s : Duration .int64 .second} {c : Duration (r.common .int64) (p.common .second)}

/-- A duration in the common period with seconds. -/
theorem durationCast_common_second (hd : 0 ≤ d.count) :
    d.durationCast (r.common .int64) (p.common .second) = some c ↔
      r.Holds (d.count * p.num) ∧ c.count = d.count * p.num := by
  rw [durationCast_eq_some hd, Ratio.divide_common_second.1, Ratio.divide_common_second.2]
  simp only [Rep.common_int64, Rep.common_self, Nat.cast_one, Int.ediv_one]

/-- Seconds in the common period. -/
theorem durationCast_second_common (hs : 0 ≤ s.count) :
    s.durationCast (r.common .int64) (p.common .second) = some c ↔
      r.Holds (s.count * p.den) ∧ c.count = s.count * p.den := by
  rw [durationCast_eq_some hs, Ratio.second_divide_common.1, Ratio.second_divide_common.2]
  simp only [Rep.common_int64, Nat.cast_one, Int.ediv_one]

theorem durationCast_second (hd : 0 ≤ d.count) : d.durationCast .int64 .second = some s ↔
    r.Holds (d.count * p.num) ∧ s.count = d.count * p.num / p.den := by
  rw [durationCast_eq_some hd, Ratio.divide_second.1, Ratio.divide_second.2, Rep.int64_common]

/-- The whole seconds of a duration do not exceed it, in the common period. -/
theorem exists_common (hd : 0 ≤ d.count) (h : d.durationCast .int64 .second = some s) :
    ∃ a b : Duration (r.common .int64) (p.common .second),
      d.durationCast _ _ = some a ∧ s.durationCast _ _ = some b ∧
        a.count = d.count * p.num ∧ b.count = d.count * p.num / p.den * p.den := by
  obtain ⟨hr, hs⟩ := (durationCast_second hd).mp h
  have hn : 0 ≤ d.count * p.num := Int.mul_nonneg hd (Int.natCast_nonneg _)
  have hs0 : 0 ≤ s.count := hs ▸ Int.ediv_nonneg hn (Int.natCast_nonneg _)
  have hle : s.count * p.den ≤ d.count * p.num := by
    rw [hs]
    exact Int.ediv_mul_le _ Ratio.cast_den_pos.ne'
  have hb : r.Holds (s.count * p.den) :=
    hr.mono (Int.mul_nonneg hs0 (Int.natCast_nonneg _)) hle
  refine ⟨⟨_, by rwa [Rep.common_int64]⟩, ⟨_, by rwa [Rep.common_int64]⟩,
    (durationCast_common_second hd).mpr ⟨hr, rfl⟩, (durationCast_second_common hs0).mpr ⟨hb, rfl⟩,
    rfl, congrArg (fun x => x * (p.den : Int)) hs⟩

/-- **Rounding down to seconds** is the conversion, for a duration that is not negative. -/
theorem floor_eq_durationCast (hd : 0 ≤ d.count) :
    d.floor .int64 .second = d.durationCast .int64 .second := by
  rw [floor]
  cases h : d.durationCast .int64 .second with
  | none => rfl
  | some s =>
    obtain ⟨a, b, ha, hb, hac, hbc⟩ := exists_common hd h
    have hle : b.count ≤ a.count := by
      rw [hac, hbc]
      exact Int.ediv_mul_le _ Ratio.cast_den_pos.ne'
    have hlt : d.lt s = some false := by
      rw [lt, ha, hb]
      simpa using hle
    simp [hlt]

/-- **What is left of a duration** when its whole seconds are taken away. -/
theorem sub_durationCast (hd : 0 ≤ d.count) (h : d.durationCast .int64 .second = some s) :
    d.sub s = some c ↔ c.count = d.count * p.num % p.den := by
  obtain ⟨a, b, ha, hb, hac, hbc⟩ := exists_common hd h
  rw [sub, ha, hb]
  simp only [Option.bind_eq_bind, Option.bind_some, ofCount_eq_some]
  rw [hac, hbc, Int.emod_def, Int.mul_comm (p.den : Int)]

/-- What is left, in nanoseconds. -/
theorem durationCast_nano (hc : 0 ≤ c.count) {n : Duration .int64 .nano} :
    c.durationCast .int64 .nano = some n ↔
      r.Holds (c.count * (10 ^ 9 / (10 ^ 9).gcd p.den : Nat)) ∧
        n.count = c.count * 10 ^ 9 / p.den := by
  rw [durationCast_eq_some hc, Ratio.mul_common_divide_nano, Ratio.common_divide_nano_num]
  simp only [Rep.int64_common, Rep.common_int64]

variable {n : Duration .int64 .nano}
  {m : Duration (.common .int64 .int64) (Ratio.second.common .nano)}

/-- **Seconds and nanoseconds** add up in nanoseconds. -/
theorem add_nano (hs : 0 ≤ s.count) (hn : 0 ≤ n.count) :
    s.add n = some m ↔ m.count = s.count * 10 ^ 9 + n.count := by
  have hnum : (Ratio.second.divide (Ratio.second.common .nano)).num = 10 ^ 9 := by decide
  have hden : (Ratio.second.divide (Ratio.second.common .nano)).den = 1 := by decide
  rw [add, durationCast_of_divide (d := n) (by decide) (by decide)]
  simp only [Option.bind_eq_bind, Option.bind_eq_some_iff, durationCast_eq_some hs,
    ofCount_eq_some, hnum, hden]
  constructor
  · rintro ⟨a, ⟨-, ha⟩, b, hb, hm⟩
    rw [hm, ha, hb]
    simp
  · intro hm
    have hholds := m.holds
    have hfits : Rep.int64.Holds (s.count * 10 ^ 9) :=
      Rep.Holds.mono (hm ▸ hholds) (by omega) (by omega)
    exact ⟨⟨_, hfits⟩, ⟨hfits, by simp⟩, n, rfl, hm⟩

/-- A comparison of nanoseconds. -/
theorem lt_nano : n.lt m = some (decide (n.count < m.count)) := by
  have hn : n.durationCast (.common .int64 (.common .int64 .int64))
      (Ratio.nano.common (Ratio.second.common .nano)) = some ⟨n.count, n.holds⟩ :=
    (durationCast_of_divide (by decide) (by decide)).trans (dif_pos n.holds)
  have hm : m.durationCast (.common .int64 (.common .int64 .int64))
      (Ratio.nano.common (Ratio.second.common .nano)) = some ⟨m.count, m.holds⟩ :=
    (durationCast_of_divide (by decide) (by decide)).trans (dif_pos m.holds)
  rw [lt, hn, hm]
  rfl

end

end Duration

end Chrono
