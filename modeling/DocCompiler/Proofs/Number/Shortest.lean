import Mathlib.Algebra.Order.Field.Power
import Mathlib.Data.Rat.Cast.Order
import Mathlib.Tactic.FieldSimp
import Mathlib.Tactic.Linarith
import Mathlib.Tactic.NormNum
import Mathlib.Tactic.Positivity
import Mathlib.Tactic.Ring
import Mathlib.Tactic.SplitIfs
import DocCompiler.Proofs.Number.Decimal
import Mathlib.Data.Nat.Cast.Order.Field

/-!
The intervals of double-precision numbers, and the search for the shortest decimal. It finds one, with seventeen
digits at most, in the interval of the number; it lies in the interval of no other one.
-/

namespace DocCompiler.Binary64

section Intervals

/-- The lower end of an interval. -/
def Interval.lowest (i : Interval) : ℚ := i.low / i.unit

/-- The upper end of an interval. -/
def Interval.highest (i : Interval) : ℚ := i.high / i.unit

/-- A ratio lies in an interval. -/
structure Interval.Within (i : Interval) (q : ℚ) : Prop where
  low : i.lowest ≤ q
  high : q ≤ i.highest
  ends : i.closed = false → i.lowest ≠ q ∧ q ≠ i.highest

theorem Interval.within_of_holds {i : Interval} {num den : Nat} (hunit : 0 < i.unit) (hden : 0 < den)
    (h : i.holds num den = true) : i.Within ((num : ℚ) / den) := by
  have hunit' : (0 : ℚ) < i.unit := by exact_mod_cast hunit
  have hden' : (0 : ℚ) < den := by exact_mod_cast hden
  rw [holds] at h
  split_ifs at h with hclosed
  · rw [Bool.and_eq_true, decide_eq_true_eq, decide_eq_true_eq] at h
    have hlow : (i.low : ℚ) * den ≤ num * i.unit := by exact_mod_cast h.1
    have hhigh : (num : ℚ) * i.unit ≤ i.high * den := by exact_mod_cast h.2
    refine ⟨?_, ?_, fun hopen => absurd (hclosed.symm.trans hopen) (by decide)⟩
    · rwa [lowest, div_le_div_iff₀ hunit' hden']
    · rwa [highest, div_le_div_iff₀ hden' hunit']
  · rw [Bool.and_eq_true, decide_eq_true_eq, decide_eq_true_eq] at h
    have hlow : (i.low : ℚ) * den < num * i.unit := by exact_mod_cast h.1
    have hhigh : (num : ℚ) * i.unit < i.high * den := by exact_mod_cast h.2
    have hlow' : i.lowest < num / den := by rwa [lowest, div_lt_div_iff₀ hunit' hden']
    have hhigh' : (num : ℚ) / den < i.highest := by rwa [highest, div_lt_div_iff₀ hden' hunit']
    exact ⟨hlow'.le, hhigh'.le, fun _ => ⟨hlow'.ne, hhigh'.ne⟩⟩

/-- What lies strictly between the ends is held. -/
theorem Interval.holds_of_lt {i : Interval} {num den : Nat} (hunit : 0 < i.unit) (hden : 0 < den)
    (hlow : i.lowest < (num : ℚ) / den) (hhigh : (num : ℚ) / den < i.highest) :
    i.holds num den = true := by
  have hunit' : (0 : ℚ) < i.unit := by exact_mod_cast hunit
  have hden' : (0 : ℚ) < den := by exact_mod_cast hden
  rw [lowest, div_lt_div_iff₀ hunit' hden'] at hlow
  rw [highest, div_lt_div_iff₀ hden' hunit'] at hhigh
  have hlow' : i.low * den < num * i.unit := by exact_mod_cast hlow
  have hhigh' : num * i.unit < i.high * den := by exact_mod_cast hhigh
  rw [holds]
  split_ifs
  · simp [hlow'.le, hhigh'.le]
  · simp [hlow', hhigh']

/-- A positive number in canonical form. -/
structure Ordinary (significand : Nat) (exponent : Int) : Prop where
  pos : 0 < significand
  lt : significand < 2 ^ 53
  least : minExponent ≤ exponent
  large : 2 ^ 52 ≤ significand ∨ exponent = minExponent

section Bounds

variable {significand : Nat} {exponent : Int}

theorem twoTo_div (exponent : Int) :
    ((twoTo exponent.toNat : Nat) : ℚ) / (twoTo (-exponent).toNat : Nat) = 2 ^ exponent := by
  simp only [twoTo, Nat.pow_eq, Nat.cast_pow, Nat.cast_ofNat]
  rcases Int.le_total 0 exponent with h | h
  · obtain ⟨n, rfl⟩ := Int.eq_ofNat_of_zero_le h
    simp
  · obtain ⟨n, hn⟩ := Int.eq_ofNat_of_zero_le (Int.neg_nonneg.mpr h)
    obtain rfl : exponent = -n := by omega
    simp

theorem unit_pos : 0 < (interval significand exponent).unit :=
  Nat.mul_pos (by decide) (twoTo_pos _)

theorem highest_interval :
    (interval significand exponent).highest = (4 * significand + 2) / 4 * 2 ^ exponent := by
  rw [← twoTo_div, Interval.highest, interval]
  push_cast
  ring

/-- The width of the lower gap, in quarters of the last place. -/
def lowerGap (significand : Nat) (exponent : Int) : Nat :=
  if significand = twoTo 52 ∧ minExponent < exponent then 1 else 2

theorem lowest_interval (h : 0 < significand) :
    (interval significand exponent).lowest =
      (4 * significand - lowerGap significand exponent) / 4 * 2 ^ exponent := by
  have hgap : lowerGap significand exponent ≤ 4 * significand := by
    rw [lowerGap]
    split_ifs <;> omega
  rw [← twoTo_div, Interval.lowest, interval]
  change (((4 * significand - lowerGap significand exponent) * twoTo exponent.toNat : Nat) : ℚ) /
    ((4 * twoTo (-exponent).toNat : Nat) : ℚ) = _
  rw [Nat.cast_mul, Nat.cast_sub hgap]
  push_cast
  ring

end Bounds

theorem lowerGap_le (significand : Nat) (exponent : Int) :
    (lowerGap significand exponent : ℚ) ≤ 2 := by
  rw [lowerGap]
  split_ifs <;> norm_num

/-- A number ends where a greater one starts, or in front of it; where they meet, one of them has an odd
significand. -/
theorem highest_le_lowest {s t : Nat} {e f : Int} (hs : Ordinary s e) (ht : Ordinary t f)
    (hlt : e < f ∨ e = f ∧ s < t) :
    (interval s e).highest < (interval t f).lowest ∨
      (interval s e).highest = (interval t f).lowest ∧ (s % 2 = 1 ∨ t % 2 = 1) := by
  have hpower : (0 : ℚ) < 2 ^ e := by positivity
  rw [lowest_interval ht.pos, highest_interval]
  obtain hef | ⟨rfl, hst⟩ := hlt
  · -- The greater number has a greater exponent, so its significand is large.
    have hlarge : 2 ^ 52 ≤ t := ht.large.resolve_right (by have := hs.least; omega)
    have hdouble : (2 : ℚ) ^ f ≥ 2 * 2 ^ e := by
      rw [← zpow_one_add₀ (by norm_num)]
      exact zpow_le_zpow_right₀ (by norm_num) (by omega)
    have hscale {quarters : ℚ} (hquarters : 0 ≤ quarters) (hle : quarters ≤ 4 * t - lowerGap t f) :
        quarters / 4 * (2 * 2 ^ e) ≤ (4 * (t : ℚ) - lowerGap t f) / 4 * 2 ^ f :=
      mul_le_mul (by linarith) hdouble (by positivity) (by linarith)
    have hhigh : (s : ℚ) ≤ 2 ^ 53 - 1 := by
      have := hs.lt
      have hle : s + 1 ≤ 2 ^ 53 := this
      have hcast : (s : ℚ) + 1 ≤ 2 ^ 53 := by exact_mod_cast hle
      linarith
    have hbelow (quarters : ℚ) (hless : 4 * (s : ℚ) + 2 < 2 * quarters) :
        (4 * (s : ℚ) + 2) / 4 * 2 ^ e < quarters / 4 * (2 * 2 ^ e) := by
      nlinarith
    by_cases hleast : t = 2 ^ 52
    · have hgap : lowerGap t f = 1 := by
        rw [lowerGap, if_pos ⟨hleast, by have := hs.least; omega⟩]
      have hlow := @hscale (2 ^ 54 - 1) (by norm_num) (by
        rw [hgap, hleast]
        norm_num)
      by_cases hlast : s = 2 ^ 53 - 1
      · have hends : (4 * (s : ℚ) + 2) / 4 * 2 ^ e = (2 ^ 54 - 1) / 4 * (2 * 2 ^ e) := by
          rw [hlast]
          push_cast
          ring
        refine (lt_or_eq_of_le (hends.trans_le hlow)).imp_right fun heq => ⟨heq, .inl ?_⟩
        omega
      · refine .inl ((hbelow _ ?_).trans_le hlow)
        have hle : s + 2 ≤ 2 ^ 53 := by have := hs.lt; omega
        have hcast : (s : ℚ) + 2 ≤ 2 ^ 53 := by exact_mod_cast hle
        linarith
    · have hgap := lowerGap_le t f
      have hle : 2 ^ 52 + 1 ≤ t := by omega
      have hcast : (2 : ℚ) ^ 52 + 1 ≤ t := by exact_mod_cast hle
      have hlow := @hscale (2 ^ 54 + 2) (by norm_num) (by linarith)
      exact .inl ((hbelow _ (by linarith)).trans_le hlow)
  · -- Only the least significand has a narrow gap below, and it is not above another one.
    have hgap : lowerGap t e = 2 := by
      rw [lowerGap, if_neg]
      rintro ⟨ht', he⟩
      have := hs.large
      simp only [twoTo, Nat.pow_eq] at ht'
      omega
    rw [hgap]
    by_cases hnext : s + 1 = t
    · refine .inr ⟨?_, by omega⟩
      rw [← hnext]
      push_cast
      ring
    · refine .inl ?_
      have hle : (s : ℚ) + 2 ≤ t := by exact_mod_cast (by omega : s + 2 ≤ t)
      have hquarter : (4 * (s : ℚ) + 2) / 4 < (4 * t - (2 : Nat)) / 4 := by
        push_cast
        linarith
      exact mul_lt_mul_of_pos_right hquarter hpower

/-- The intervals of two numbers, one of which is less, have nothing in common. -/
theorem not_within_of_lt {s t : Nat} {e f : Int} (hs : Ordinary s e) (ht : Ordinary t f)
    (hlt : e < f ∨ e = f ∧ s < t) {q : ℚ} (hq : (interval s e).Within q) : ¬(interval t f).Within q := by
  intro hq'
  obtain hapart | ⟨hmeet, hodd⟩ := highest_le_lowest hs ht hlt
  · exact absurd (hq'.low.trans hq.high) (not_le.mpr hapart)
  · have heq : q = (interval s e).highest := le_antisymm hq.high (hmeet ▸ hq'.low)
    have heq' : (interval t f).lowest = q := hmeet ▸ heq.symm
    obtain hodd | hodd := hodd
    · have hopen : (interval s e).closed = false := by simp [interval, hodd]
      exact (hq.ends hopen).2 heq
    · have hopen : (interval t f).closed = false := by simp [interval, hodd]
      exact (hq'.ends hopen).1 heq'

/-- A ratio lies in the interval of one number at most. -/
theorem within_unique {s t : Nat} {e f : Int} (hs : Ordinary s e) (ht : Ordinary t f) {q : ℚ}
    (hq : (interval s e).Within q) (hq' : (interval t f).Within q) : s = t ∧ e = f := by
  have hlt := mt (not_within_of_lt hs ht · hq) (not_not.mpr hq')
  have hgt := mt (not_within_of_lt ht hs · hq') (not_not.mpr hq)
  omega

end Intervals

/-- The power of ten that a ratio is below and not ten times below. -/
structure Bounded (num den : Nat) (point : Int) : Prop where
  low : (10 : ℚ) ^ (point - 1) ≤ (num : ℚ) / den
  high : (num : ℚ) / den < 10 ^ point

theorem grow_spec {den : Nat} {fuel : Nat} :
    ∀ {num zeros : Nat}, num < den → den ≤ 10 ^ fuel * num → ∃ count : Nat,
      decimalPoint.grow den num fuel zeros = -((zeros + count : Nat) : Int) ∧ 10 ^ count * num < den ∧
        den ≤ 10 ^ (count + 1) * num := by
  induction fuel with
  | zero =>
      intro num zeros hlt hle
      omega
  | succ fuel ih =>
      intro num zeros hlt hle
      rw [decimalPoint.grow]
      split_ifs with hnear
      · exact ⟨0, rfl, by omega, by omega⟩
      · have hle' : den ≤ 10 ^ fuel * (10 * num) := by
          rw [pow_succ] at hle
          rw [← Nat.mul_assoc]
          exact hle
        obtain ⟨count, hgrow, hbelow, habove⟩ := @ih _ (zeros + 1) (Nat.lt_of_not_le hnear) hle'
        refine ⟨count + 1, ?_, ?_, ?_⟩
        · rw [hgrow]
          congr 2
          omega
        · rw [pow_succ, Nat.mul_assoc]
          exact hbelow
        · rw [pow_succ, Nat.mul_assoc]
          exact habove

/-- How many digits a number has. -/
theorem pow_length_toDigits {n : Nat} (h : n ≠ 0) :
    10 ^ ((Nat.toDigits 10 n).length - 1) ≤ n ∧ n < 10 ^ (Nat.toDigits 10 n).length := by
  generalize hlength : (Nat.toDigits 10 n).length = length
  have hpos : 0 < length := hlength ▸ Nat.length_toDigits_pos
  refine ⟨?_, (Nat.length_toDigits_le_iff (by decide) hpos).mp (le_of_eq hlength)⟩
  by_contra hless
  obtain hone | hmore : length = 1 ∨ 0 < length - 1 := by omega
  · rw [hone] at hless
    omega
  · have := (Nat.length_toDigits_le_iff (by decide) hmore).mpr (Nat.lt_of_not_le hless)
    omega

theorem decimalPoint_spec {num den fuel : Nat} (hden : 0 < den) (hfuel : den ≤ 10 ^ fuel * num) :
    Bounded num den (decimalPoint num den fuel) := by
  have hden' : (0 : ℚ) < den := by exact_mod_cast hden
  rw [decimalPoint]
  split_ifs with hle
  · have hquotient : 1 ≤ num / den := (Nat.one_le_div_iff hden).mpr hle
    have hpos : 0 < (Nat.toDigits 10 (num / den)).length := Nat.length_toDigits_pos
    obtain ⟨hlow, hhigh⟩ := pow_length_toDigits (Nat.pos_iff_ne_zero.mp hquotient)
    generalize (Nat.toDigits 10 (num / den)).length = length at *
    constructor
    · rw [le_div_iff₀ hden']
      have hint : (length : Int) - 1 = ((length - 1 : Nat) : Int) := by omega
      rw [hint, zpow_natCast]
      exact_mod_cast (Nat.le_div_iff_mul_le hden).mp hlow
    · rw [div_lt_iff₀ hden', zpow_natCast]
      exact_mod_cast (Nat.div_lt_iff_lt_mul hden).mp hhigh
  · obtain ⟨count, hgrow, hbelow, habove⟩ := @grow_spec _ _ _ 0 (Nat.lt_of_not_le hle) hfuel
    rw [hgrow, Nat.zero_add]
    constructor
    · rw [le_div_iff₀ hden']
      have hint : -(count : Int) - 1 = -((count + 1 : Nat) : Int) := by omega
      rw [hint, zpow_neg, zpow_natCast, inv_mul_le_iff₀ (by positivity)]
      exact_mod_cast habove
    · rw [div_lt_iff₀ hden', zpow_neg, zpow_natCast, lt_inv_mul_iff₀ (by positivity)]
      exact_mod_cast hbelow

/-- A number of units of a power of ten as a ratio. -/
def gridPlace (power : Int) (digits : Nat) : Nat × Nat :=
  if power < 0 then (digits, tenTo power.natAbs) else (digits * tenTo power.natAbs, 1)

/-- The value of an interval in units of a power of ten, as a ratio. -/
def Interval.inGrid (i : Interval) (power : Int) : Nat × Nat :=
  if power < 0 then (i.value * tenTo power.natAbs, i.unit) else (i.value, i.unit * tenTo power.natAbs)

/-- Whether an interval holds a number of units of a power of ten. -/
def Interval.fits (i : Interval) (power : Int) (digits : Nat) : Bool :=
  i.holds (gridPlace power digits).1 (gridPlace power digits).2

theorem decimalOf?_eq (i : Interval) (point : Int) (count : Nat) :
    decimalOf? i point count =
      let power := point - count
      let ratio := i.inGrid power
      let lower := ratio.1 / ratio.2
      match i.fits power lower, i.fits power (lower + 1) with
      | false, false => none
      | true, false => some lower
      | false, true => some (lower + 1)
      | true, true => some (nearest ratio.1 ratio.2) :=
  rfl

theorem tenTo_pos (exponent : Nat) : 0 < tenTo exponent :=
  Nat.pow_pos (by decide)

theorem gridPlace_pos (power : Int) (digits : Nat) : 0 < (gridPlace power digits).2 := by
  rw [gridPlace]
  split_ifs
  · exact tenTo_pos _
  · exact Nat.one_pos

theorem gridPlace_eq (power : Int) (digits : Nat) :
    ((gridPlace power digits).1 : ℚ) / (gridPlace power digits).2 = digits * 10 ^ power := by
  rw [gridPlace]
  split_ifs with h
  · obtain ⟨n, hn⟩ : ∃ n : Nat, power = -(n : Int) := ⟨power.natAbs, by omega⟩
    rw [hn]
    simp [tenTo, div_eq_mul_inv]
  · obtain ⟨n, rfl⟩ := Int.eq_ofNat_of_zero_le (Int.not_lt.mp h)
    simp [tenTo]

theorem inGrid_eq {i : Interval} (hunit : 0 < i.unit) (power : Int) :
    0 < (i.inGrid power).2 ∧
      ((i.inGrid power).1 : ℚ) / (i.inGrid power).2 = (i.value : ℚ) / i.unit / 10 ^ power := by
  rw [Interval.inGrid]
  split_ifs with h
  · obtain ⟨n, hn⟩ : ∃ n : Nat, power = -(n : Int) := ⟨power.natAbs, by omega⟩
    refine ⟨hunit, ?_⟩
    rw [hn]
    simp only [tenTo, Nat.pow_eq, Nat.cast_mul, Nat.cast_pow, Nat.cast_ofNat, Int.natAbs_neg,
      Int.natAbs_natCast, zpow_neg, zpow_natCast]
    field_simp
  · obtain ⟨n, rfl⟩ := Int.eq_ofNat_of_zero_le (Int.not_lt.mp h)
    refine ⟨Nat.mul_pos hunit (tenTo_pos _), ?_⟩
    simp only [tenTo, Nat.pow_eq, Nat.cast_mul, Nat.cast_pow, Nat.cast_ofNat, Int.natAbs_natCast,
      zpow_natCast]
    field_simp

section Decimal

variable {i : Interval} (hunit : 0 < i.unit)

include hunit

theorem within_of_fits {power : Int} {digits : Nat} (h : i.fits power digits = true) :
    i.Within (digits * 10 ^ power) := by
  rw [← gridPlace_eq]
  exact Interval.within_of_holds hunit (gridPlace_pos _ _) h

theorem fits_of_lt {power : Int} {digits : Nat} (hlow : i.lowest < digits * 10 ^ power)
    (hhigh : (digits : ℚ) * 10 ^ power < i.highest) : i.fits power digits = true := by
  rw [← gridPlace_eq] at hlow hhigh
  exact Interval.holds_of_lt hunit (gridPlace_pos _ _) hlow hhigh

/-- A decimal that is found lies in the interval. -/
theorem within_of_decimalOf? {point : Int} {count digits : Nat}
    (h : decimalOf? i point count = some digits) : i.Within (digits * 10 ^ (point - count)) := by
  rw [decimalOf?_eq] at h
  dsimp only at h
  have hnearest (num den : Nat) : nearest num den = num / den ∨ nearest num den = num / den + 1 := by
    rw [nearest]
    split_ifs
    · exact .inl rfl
    · exact .inr rfl
    · have := Nat.mod_two_eq_zero_or_one (num / den)
      omega
  split at h
  · exact absurd h nofun
  · obtain rfl := Option.some.inj h
    exact within_of_fits hunit ‹_›
  · obtain rfl := Option.some.inj h
    exact within_of_fits hunit ‹_›
  · obtain rfl := Option.some.inj h
    refine within_of_fits hunit ?_
    obtain heq | heq := hnearest (i.inGrid (point - count)).1 (i.inGrid (point - count)).2
    · rwa [heq]
    · rwa [heq]

theorem searchShortest_spec {point : Int} {fuel count digits found : Nat}
    (h : searchShortest i point fuel count = some (digits, found)) :
    i.Within (digits * 10 ^ (point - found)) := by
  induction fuel generalizing count with
  | zero => exact absurd h nofun
  | succ fuel ih =>
      rw [searchShortest] at h
      split at h
      · rename_i digits' hdigits
        obtain ⟨rfl, rfl⟩ := Prod.mk.inj (Option.some.inj h)
        exact within_of_decimalOf? hunit hdigits
      · exact ih h

/-- On a grid that is finer than the interval, one of the neighbours of the value is held. -/
theorem exists_decimalOf? {point : Int} {count : Nat}
    (hlow : i.lowest < (i.value : ℚ) / i.unit - 10 ^ (point - count) / 2)
    (hhigh : (i.value : ℚ) / i.unit + 10 ^ (point - count) / 2 < i.highest) :
    ∃ digits, decimalOf? i point count = some digits := by
  obtain ⟨hden, hratio⟩ := inGrid_eq hunit (point - count)
  have hgrid : (0 : ℚ) < 10 ^ (point - count) := by positivity
  generalize hlower : (i.inGrid (point - count)).1 / (i.inGrid (point - count)).2 = lower at *
  have hfloor : (lower : ℚ) * 10 ^ (point - count) ≤ (i.value : ℚ) / i.unit := by
    rw [← le_div_iff₀ hgrid, ← hratio, ← hlower]
    exact Nat.cast_div_le
  have hceil : (i.value : ℚ) / i.unit < (lower + 1) * 10 ^ (point - count) := by
    rw [← div_lt_iff₀ hgrid, ← hratio, div_lt_iff₀ (by exact_mod_cast hden), ← hlower]
    exact_mod_cast Nat.lt_mul_of_div_lt (Nat.lt_succ_self _) hden
  have hone : i.fits (point - count) lower = true ∨ i.fits (point - count) (lower + 1) = true := by
    by_cases hnear : (i.value : ℚ) / i.unit - 10 ^ (point - count) / 2 ≤ lower * 10 ^ (point - count)
    · exact .inl (fits_of_lt hunit (by linarith) (by linarith))
    · refine .inr (fits_of_lt hunit ?_ ?_)
      · push_cast
        linarith
      · push_cast
        linarith
  rw [decimalOf?_eq]
  dsimp only
  rw [hlower]
  obtain hfits | hfits := hone
  · rw [hfits]
    cases i.fits (point - count) (lower + 1) <;> exact ⟨_, rfl⟩
  · rw [hfits]
    cases i.fits (point - count) lower <;> exact ⟨_, rfl⟩

omit hunit in
theorem exists_searchShortest {point : Int} {fuel count more digits : Nat} (hfuel : more < fuel)
    (h : decimalOf? i point (count + more) = some digits) :
    ∃ found, searchShortest i point fuel count = some found := by
  induction fuel generalizing count more with
  | zero => omega
  | succ fuel ih =>
      rw [searchShortest]
      cases hnow : decimalOf? i point count with
      | some digits => exact ⟨_, rfl⟩
      | none =>
          cases more with
          | zero => exact absurd (hnow.symm.trans h) nofun
          | succ more =>
              refine @ih _ more (by omega) ?_
              rw [← h]
              congr 1
              omega

end Decimal

/-- The value of an interval. -/
theorem value_interval (significand : Nat) (exponent : Int) :
    ((interval significand exponent).value : ℚ) / (interval significand exponent).unit =
      significand * 2 ^ exponent := by
  rw [← twoTo_div]
  change ((4 * significand * twoTo exponent.toNat : Nat) : ℚ) / ((4 * twoTo (-exponent).toNat : Nat) : ℚ) = _
  push_cast
  field_simp

theorem two_pow_le_ten_pow (count : Nat) : 2 ^ (3 * count) ≤ 10 ^ count := by
  rw [Nat.pow_mul]
  exact Nat.pow_le_pow_left (by decide) count

section Search

variable {significand : Nat} {exponent : Int} (h : Ordinary significand exponent)

include h

/-- The interval is wider than a grid of seventeen digits. -/
theorem wide_interval {point : Int}
    (hpoint : (10 : ℚ) ^ (point - 1) ≤ significand * 2 ^ exponent) :
    (interval significand exponent).lowest < significand * 2 ^ exponent - 10 ^ (point - 17) / 2 ∧
      significand * 2 ^ exponent + 10 ^ (point - 17) / 2 < (interval significand exponent).highest := by
  have hunit : (0 : ℚ) < 2 ^ exponent := by positivity
  have hgrid : (10 : ℚ) ^ (point - 17) * 10 ^ 16 ≤ significand * 2 ^ exponent := by
    refine le_trans (le_of_eq ?_) hpoint
    rw [← zpow_natCast, ← zpow_add₀ (by norm_num)]
    congr 1
    omega
  have hlt : (significand : ℚ) < 2 ^ 53 := by exact_mod_cast h.lt
  have hfine : (10 : ℚ) ^ (point - 17) < 2 ^ exponent := by nlinarith
  rw [lowest_interval h.pos, highest_interval]
  refine ⟨?_, by linarith⟩
  rw [lowerGap]
  split_ifs with hnarrow
  · have hleast : (significand : ℚ) = 2 ^ 52 := by
      rw [hnarrow.1]
      norm_num [twoTo]
    rw [hleast] at hgrid ⊢
    push_cast
    linarith
  · push_cast
    linarith

theorem bounded_decimalPoint :
    Bounded (interval significand exponent).value (interval significand exponent).unit
      (decimalPoint (interval significand exponent).value (interval significand exponent).unit 400) := by
  refine decimalPoint_spec unit_pos ?_
  have hvalue : 4 ≤ (interval significand exponent).value := by
    have hpos := h.pos
    have hup := twoTo_pos exponent.toNat
    change 4 ≤ 4 * significand * twoTo exponent.toNat
    nlinarith
  have hpower (count : Nat) (hcount : (-exponent).toNat ≤ 3 * count) :
      twoTo (-exponent).toNat ≤ 10 ^ count :=
    (Nat.pow_le_pow_right (by decide) hcount).trans (two_pow_le_ten_pow count)
  have hunit : (interval significand exponent).unit ≤ 4 * 10 ^ 400 := by
    have hleast := h.least
    rw [minExponent] at hleast
    exact Nat.mul_le_mul_left 4 (hpower 400 (by omega))
  rw [Nat.mul_comm] at hunit
  exact hunit.trans (Nat.mul_le_mul_left _ hvalue)

/-- Seventeen digits are enough. -/
theorem exists_shortest :
    ∃ digits count : Nat, searchShortest (interval significand exponent)
      (decimalPoint (interval significand exponent).value (interval significand exponent).unit 400) 20 1 =
        some (digits, count) := by
  have hbounded := bounded_decimalPoint h
  have hpoint := hbounded.low
  rw [value_interval] at hpoint
  obtain ⟨hlow, hhigh⟩ := wide_interval h hpoint
  rw [← value_interval] at hlow hhigh
  obtain ⟨digits, hdigits⟩ := @exists_decimalOf? _ unit_pos _ 17 hlow hhigh
  obtain ⟨⟨digits, count⟩, hfound⟩ := @exists_searchShortest _ _ 20 1 16 _ (by decide) hdigits
  exact ⟨digits, count, hfound⟩

end Search

/-- The value of a decimal. -/
def Decimal.value (d : Decimal) : ℚ :=
  Nat.ofDigitChars 10 d.digits 0 * 10 ^ (d.point - d.digits.length)

/-- The digits of a number that is not zero do not start with a zero. -/
theorem stops_toDigits {n : Nat} (h : 0 < n) : Text.Stops (· == '0') (Nat.toDigits 10 n) := by
  induction n using Nat.strongRecOn with
  | ind n ih =>
      rw [Nat.toDigits_eq_if (by decide)]
      split_ifs with hsmall
      · refine .cons ?_
        rw [beq_eq_false_iff_ne, Ne, Nat.digitChar_eq_zero]
        omega
      · have hrest := ih (n / 10) (by omega) (by omega)
        obtain ⟨c, rest, hdigits⟩ := List.exists_cons_of_ne_nil (Nat.toDigits_ne_nil (n := n / 10) (b := 10))
        rw [hdigits] at hrest ⊢
        exact .cons hrest.head

/-- The zeros at the end of a row of digits. -/
theorem exists_trailing (text : List Char) :
    ∃ count, text = (text.reverse.dropWhile (· == '0')).reverse ++ List.replicate count '0' := by
  refine ⟨(text.reverse.takeWhile (· == '0')).length, ?_⟩
  have hzeros : text.reverse.takeWhile (· == '0') =
      List.replicate (text.reverse.takeWhile (· == '0')).length '0' := by
    rw [List.eq_replicate_iff]
    exact ⟨rfl, fun c hc => beq_iff_eq.mp (List.all_eq_true.mp List.all_takeWhile c hc)⟩
  rw [← List.reverse_replicate, ← hzeros, ← List.reverse_append, List.takeWhile_append_dropWhile,
    List.reverse_reverse]

/-- The decimal of a number has its own digits, and it lies in the interval of the number. -/
theorem shortest_spec {significand : Nat} {exponent : Int} (h : Ordinary significand exponent) :
    (shortest significand exponent).Normal ∧
      (interval significand exponent).Within (shortest significand exponent).value := by
  obtain ⟨digits, count, hsearch⟩ := exists_shortest h
  have hwithin := searchShortest_spec unit_pos hsearch
  generalize hpoint : decimalPoint (interval significand exponent).value
    (interval significand exponent).unit 400 = point at *
  have hpos : 0 < digits := by
    by_contra hzero
    obtain rfl : digits = 0 := by omega
    have hlow := hwithin.low
    have hgap := lowerGap_le significand exponent
    have hone : (1 : ℚ) ≤ significand := by exact_mod_cast h.pos
    have hpower : (0 : ℚ) < 2 ^ exponent := by positivity
    rw [lowest_interval h.pos] at hlow
    push_cast at hlow
    nlinarith
  obtain ⟨zeros, hzeros⟩ := exists_trailing (Nat.toDigits 10 digits)
  have hshortest : shortest significand exponent =
      ⟨((Nat.toDigits 10 digits).reverse.dropWhile (· == '0')).reverse,
        point + (((Nat.toDigits 10 digits).length : Int) - count)⟩ := by
    rw [shortest]
    dsimp only
    rw [hpoint, hsearch]
  have hlast : Text.Stops (· == '0') ((Nat.toDigits 10 digits).reverse.dropWhile (· == '0')).reverse.reverse := by
    rw [List.reverse_reverse]
    exact Text.stops_dropWhile _ _
  generalize ((Nat.toDigits 10 digits).reverse.dropWhile (· == '0')).reverse = kept at *
  have hdigit : ∀ c ∈ kept, c.isDigit = true := by
    intro c hc
    have hmem : c ∈ Nat.toDigits 10 digits := by
      rw [hzeros]
      exact List.mem_append_left _ hc
    exact Nat.isDigit_of_mem_toDigits (by decide) (by decide) hmem
  have hstops := stops_toDigits hpos
  have hne : kept ≠ [] := by
    rintro rfl
    obtain ⟨c, rest, hcons⟩ := List.exists_cons_of_ne_nil (Nat.toDigits_ne_nil (n := digits) (b := 10))
    rw [hcons] at hzeros hstops
    have hc : c = '0' := List.eq_of_mem_replicate (hzeros ▸ List.mem_cons_self)
    exact absurd hstops.head (by simp [hc])
  have hread : (digits : ℚ) = Nat.ofDigitChars 10 kept 0 * 10 ^ zeros := by
    have hdigits := Nat.ofDigitChars_ten_toDigits (n := digits)
    rw [hzeros, Nat.ofDigitChars_append, Nat.ofDigitChars_replicate_zero] at hdigits
    rw [← hdigits]
    push_cast
    ring
  rw [hshortest]
  refine ⟨⟨hdigit, hne, ?_, hlast⟩, ?_⟩
  · rw [hzeros] at hstops
    obtain ⟨c, rest, rfl⟩ := List.exists_cons_of_ne_nil hne
    exact .cons hstops.head
  · have hlength := congrArg List.length hzeros
    rw [List.length_append, List.length_replicate] at hlength
    have hpower : point + (((Nat.toDigits 10 digits).length : Int) - count) - kept.length =
        (zeros : Int) + (point - count) := by omega
    rw [Decimal.value, hpower, zpow_add₀ (by norm_num), zpow_natCast, ← mul_assoc, ← hread]
    exact hwithin

end DocCompiler.Binary64
