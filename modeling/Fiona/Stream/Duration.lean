import Fiona.Lib.Chrono
import Fiona.Stream.Impl

/-!
# The period of a timer

`stream::timeout` takes a duration of any period, and `duration_to_timespec` splits it into seconds
and nanoseconds. A tick of the timer puts them together again, in nanoseconds, and compares. In
between are several products that have to fit into 64 bits. Where all of them do, the timer
compares with the duration, rounded down to nanoseconds, exactly; which ones can fail to is a
matter of the count and the period alone (`Fiona.TimerPeriod.durationToTimespec_exact`).
-/

namespace Fiona

open Chrono

/-- `__kernel_timespec`. -/
structure KernelTimespec where
  tvSec : Int
  tvNsec : Int
  tvSec_holds : Chrono.Rep.int64.Holds tvSec
  tvNsec_holds : Chrono.Rep.int64.Holds tvNsec

variable {r : Chrono.Rep} {p : Ratio}

/-- `duration_to_timespec`. -/
def durationToTimespec (d : Duration r p) : Option KernelTimespec := do
  let sec ← d.floor .int64 .second
  let rest ← d.sub sec
  let nsec ← rest.durationCast .int64 .nano
  some ⟨sec.count, nsec.count, sec.holds, nsec.holds⟩

namespace KernelTimespec

variable (ts : KernelTimespec)

/-- The `max_diff` of `timeout_frame::await_process_cqe`. -/
def maxDiff : Option (Duration (.common .int64 .int64) (Ratio.second.common .nano)) :=
  Duration.add (⟨ts.tvSec, ts.tvSec_holds⟩ : Duration .int64 .second)
    (⟨ts.tvNsec, ts.tvNsec_holds⟩ : Duration .int64 .nano)

/-- The comparison `diff >= max_diff`. -/
def isIdle (diff : Duration .int64 .nano) : Option Bool := do
  let maxDiff ← ts.maxDiff
  let less ← diff.lt maxDiff
  some !less

end KernelTimespec

namespace TimerPeriod

/-- The duration, rounded down to nanoseconds. -/
def nanoseconds (d : Duration r p) : Int := d.count * p.num * 10 ^ 9 / p.den

/-- **The duration survives**: its seconds and nanoseconds are normalised, they are all of it but
for fractions of a nanosecond, and the timer compares with just that. -/
def Survives (d : Duration r p) : Prop :=
  ∃ ts, durationToTimespec d = some ts ∧ 0 ≤ ts.tvNsec ∧ ts.tvNsec < 10 ^ 9 ∧
    ts.tvSec * 10 ^ 9 + ts.tvNsec = nanoseconds d ∧
    (∃ m, ts.maxDiff = some m ∧ m.count = nanoseconds d) ∧
    ∀ diff, ts.isIdle diff = some (decide (nanoseconds d ≤ diff.count))

/-- What has to fit into 64 bits: the count times the numerator of the period, what this leaves of
a second times the factor to nanoseconds, and the nanoseconds of the whole. -/
structure Fits (d : Duration r p) : Prop where
  product : r.Holds (d.count * p.num)
  rest : r.Holds (d.count * p.num % p.den * (10 ^ 9 / (10 ^ 9).gcd p.den : Nat))
  whole : nanoseconds d < 2 ^ 63

variable {d : Duration r p} {ts : KernelTimespec}

/-- **The seconds and the rest** make up the duration. -/
theorem seconds_add_rest (n : Int) :
    n / p.den * 10 ^ 9 + n % p.den * 10 ^ 9 / p.den = n * 10 ^ 9 / p.den := by
  have hsplit : n * 10 ^ 9 = n % p.den * 10 ^ 9 + p.den * (n / p.den * 10 ^ 9) := by
    conv_lhs => rw [← Int.emod_add_mul_ediv n p.den]
    ring
  rw [hsplit, Int.add_mul_ediv_left _ _ Ratio.cast_den_pos.ne', Int.add_comm]

theorem emod_le {n : Int} (hn : 0 ≤ n) : n % p.den ≤ n := by
  have hdiv := Int.mul_nonneg (Int.natCast_nonneg p.den)
    (Int.ediv_nonneg hn (Int.natCast_nonneg p.den))
  rw [Int.emod_def]
  omega

/-- **When a duration is converted**, and to what. -/
theorem durationToTimespec_eq_some (hd : 0 ≤ d.count) : durationToTimespec d = some ts ↔
    r.Holds (d.count * p.num) ∧
      r.Holds (d.count * p.num % p.den * (10 ^ 9 / (10 ^ 9).gcd p.den : Nat)) ∧
      ts.tvSec = d.count * p.num / p.den ∧
      ts.tvNsec = d.count * p.num % p.den * 10 ^ 9 / p.den := by
  have hn : 0 ≤ d.count * p.num := Int.mul_nonneg hd (Int.natCast_nonneg _)
  have hrest : 0 ≤ d.count * p.num % p.den := Int.emod_nonneg _ Ratio.cast_den_pos.ne'
  rw [durationToTimespec, Duration.floor_eq_durationCast hd]
  simp only [Option.bind_eq_bind, Option.bind_eq_some_iff, Option.some.injEq]
  constructor
  · rintro ⟨sec, hsec, rest, hsub, nsec, hcast, rfl⟩
    obtain ⟨hproduct, hcount⟩ := (Duration.durationCast_second hd).mp hsec
    have hr := (Duration.sub_durationCast hd hsec).mp hsub
    obtain ⟨hfits, hnsec⟩ := (Duration.durationCast_nano (hr ▸ hrest)).mp hcast
    rw [hr] at hfits hnsec
    exact ⟨hproduct, hfits, hcount, hnsec⟩
  · rintro ⟨hproduct, hfits, hsec, hnsec⟩
    have hcast := (Duration.durationCast_second (s := ⟨ts.tvSec, ts.tvSec_holds⟩) hd).mpr
      ⟨hproduct, hsec⟩
    have hholds : (r.common .int64).Holds (d.count * p.num % p.den) := by
      rw [Chrono.Rep.common_int64]
      exact hproduct.mono hrest (emod_le hn)
    exact ⟨_, hcast, ⟨_, hholds⟩, (Duration.sub_durationCast hd hcast).mpr rfl,
      ⟨ts.tvNsec, ts.tvNsec_holds⟩, (Duration.durationCast_nano hrest).mpr ⟨hfits, hnsec⟩, rfl⟩

/-- **What the timer makes of it.** -/
theorem maxDiff_eq_some (hsec : 0 ≤ ts.tvSec) (hnsec : 0 ≤ ts.tvNsec)
    {m : Duration (.common .int64 .int64) (Ratio.second.common .nano)} :
    ts.maxDiff = some m ↔ m.count = ts.tvSec * 10 ^ 9 + ts.tvNsec :=
  Duration.add_nano hsec hnsec

theorem isIdle_eq {m : Duration (.common .int64 .int64) (Ratio.second.common .nano)}
    (hm : ts.maxDiff = some m) (diff : Duration .int64 .nano) :
    ts.isIdle diff = some (decide (m.count ≤ diff.count)) := by
  rw [KernelTimespec.isIdle, hm]
  simp only [Option.bind_eq_bind, Option.bind_some, Duration.lt_nano, ← decide_not, Int.not_lt]

theorem fits_of_survives (hd : 0 ≤ d.count) (h : Survives d) : Fits d := by
  obtain ⟨ts, hts, -, -, -, ⟨m, -, hm⟩, -⟩ := h
  obtain ⟨hproduct, hrest, -, -⟩ := (durationToTimespec_eq_some hd).mp hts
  exact ⟨hproduct, hrest, hm ▸ m.holds.2⟩

theorem Fits.survives (hd : 0 ≤ d.count) (h : Fits d) : Survives d := by
  obtain ⟨hproduct, hrest, hwhole⟩ := h
  have hden : (0 : Int) < p.den := Ratio.cast_den_pos
  have hsum := seconds_add_rest (p := p) (d.count * p.num)
  have hsec : 0 ≤ d.count * p.num / p.den :=
    Int.ediv_nonneg (Int.mul_nonneg hd (Int.natCast_nonneg _)) hden.le
  have hnsec : 0 ≤ d.count * p.num % p.den * 10 ^ 9 / p.den :=
    Int.ediv_nonneg (Int.mul_nonneg (Int.emod_nonneg _ hden.ne') (by decide)) hden.le
  have hlt : d.count * p.num % p.den * 10 ^ 9 / p.den < 10 ^ 9 := by
    refine Int.ediv_lt_of_lt_mul hden ?_
    have := Int.emod_lt_of_pos (d.count * p.num) hden
    omega
  change d.count * p.num * 10 ^ 9 / p.den < 2 ^ 63 at hwhole
  obtain ⟨ts, htsec, htnsec⟩ : ∃ ts : KernelTimespec, ts.tvSec = d.count * p.num / p.den ∧
      ts.tvNsec = d.count * p.num % p.den * 10 ^ 9 / p.den :=
    ⟨⟨_, _, Chrono.Rep.holds_of_lt hsec (by omega), Chrono.Rep.holds_of_lt hnsec (by omega)⟩,
      rfl, rfl⟩
  have htotal : ts.tvSec * 10 ^ 9 + ts.tvNsec = nanoseconds d := by rw [htsec, htnsec, hsum]; rfl
  have hm : ts.maxDiff = some ⟨nanoseconds d, Chrono.Rep.holds_of_lt (by omega) hwhole⟩ :=
    (maxDiff_eq_some (htsec ▸ hsec) (htnsec ▸ hnsec)).mpr htotal.symm
  exact ⟨ts, (durationToTimespec_eq_some hd).mpr ⟨hproduct, hrest, htsec, htnsec⟩,
    htnsec ▸ hnsec, htnsec ▸ hlt, htotal, ⟨_, hm, rfl⟩, isIdle_eq hm⟩

/-- **A duration survives the trip through the timespec exactly** if the three products fit. -/
theorem durationToTimespec_exact (d : Duration r p) (hd : 0 ≤ d.count) : Survives d ↔ Fits d :=
  ⟨fits_of_survives hd, Fits.survives hd⟩

/-- A millisecond and a half, in microseconds. -/
theorem durationToTimespec_exact_sample :
    Survives (⟨1500, by decide⟩ : Duration .int64
        ⟨1, 1000000, by decide, by decide, by decide⟩) ↔
      Fits (⟨1500, by decide⟩ : Duration .int64 ⟨1, 1000000, by decide, by decide, by decide⟩) :=
  durationToTimespec_exact _ (by decide)

/-- **Long durations do not survive**, nor short ones of an odd period: 9223372037 seconds, the
most hours that there are, and a second of ten thousand million and nineteen parts but for one
part. -/
theorem durationToTimespec_overflows :
    ¬Survives (⟨9223372037, by decide⟩ : Duration .int64 .second) ∧
      ¬Survives (⟨9223372036854775807, by decide⟩ : Duration .int64
        ⟨3600, 1, by decide, by decide, by decide⟩) ∧
      ¬Survives (⟨10000000018, by decide⟩ : Duration .int64
        ⟨1, 10000000019, by decide, by decide, by decide⟩) := by
  refine ⟨fun h => ?_, fun h => ?_, fun h => ?_⟩
  · exact absurd (fits_of_survives (by decide) h).whole (by decide)
  · exact absurd (fits_of_survives (by decide) h).product (by decide)
  · exact absurd (fits_of_survives (by decide) h).rest (by decide)

/-- **Of a period that divides into nanoseconds**, all that fit into 64 bits as nanoseconds
survive. -/
theorem fits_of_dvd (hd : 0 ≤ d.count) (hdvd : p.den ∣ 10 ^ 9) (h : nanoseconds d < 2 ^ 63) :
    Fits d := by
  obtain ⟨k, hk⟩ := hdvd
  have hk0 : (0 : Int) < k := by
    have hpos : 0 < p.den * k := hk ▸ (by decide : 0 < 10 ^ 9)
    exact_mod_cast Nat.pos_of_mul_pos_left hpos
  have hn : 0 ≤ d.count * p.num := Int.mul_nonneg hd (Int.natCast_nonneg _)
  have hwhole : d.count * p.num * k < 2 ^ 63 := by
    have hkz : (10 ^ 9 : Int) = p.den * k := by exact_mod_cast hk
    rwa [nanoseconds, hkz, Int.mul_left_comm, Int.mul_ediv_cancel_left _ Ratio.cast_den_pos.ne']
      at h
  have hfactor : 10 ^ 9 / (10 ^ 9).gcd p.den = k := by
    rw [hk, Nat.gcd_eq_right (Nat.dvd_mul_right _ _), Nat.mul_div_cancel_left _ p.den_pos]
  have hmod : 0 ≤ d.count * p.num % p.den := Int.emod_nonneg _ Ratio.cast_den_pos.ne'
  have hle : d.count * p.num % p.den * k ≤ d.count * p.num * k :=
    Int.mul_le_mul_of_nonneg_right (emod_le hn) hk0.le
  refine ⟨Chrono.Rep.holds_of_lt hn ?_, ?_, h⟩
  · have hone := Int.mul_le_mul_of_nonneg_left (show (1 : Int) ≤ k from hk0) hn
    rw [Int.mul_one] at hone
    exact hone.trans_lt hwhole
  · rw [hfactor]
    exact Chrono.Rep.holds_of_lt (Int.mul_nonneg hmod hk0.le) (hle.trans_lt hwhole)

/-- **The test of a tick** is the one of the exact period. -/
theorem isIdle_eq_setTimeout (hd : 0 ≤ d.count) (hts : durationToTimespec d = some ts)
    (h : Fits d) (s : StreamImpl) {now last : Nat} (hlast : last ≤ now)
    (diff : Duration .int64 .nano) (hdiff : diff.count = now - last) :
    ts.isIdle diff =
      some (decide ((s.setTimeout (nanoseconds d).toNat).1.ts ≤ now - last)) := by
  obtain ⟨ts', hts', -, -, -, -, hidle⟩ := h.survives hd
  obtain rfl : ts = ts' := Option.some.inj (hts.symm.trans hts')
  have hiff : nanoseconds d ≤ diff.count ↔ (nanoseconds d).toNat ≤ now - last := by omega
  rw [hidle, decide_eq_decide.mpr hiff]
  rfl

end TimerPeriod

end Fiona
