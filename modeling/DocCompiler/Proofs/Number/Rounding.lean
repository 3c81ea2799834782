import DocCompiler.Proofs.Number.Canonical

/-!
Rounding to double precision. A ratio in the interval of a number is rounded to that number, so that a
number is read back from every decimal in its interval.
-/

namespace DocCompiler.Binary64

/-- A whole number is nearest to a ratio; an odd one is not half a unit away. -/
structure Rounded (q : ℚ) (n : Nat) : Prop where
  low : (n : ℚ) - 1 / 2 ≤ q
  high : q ≤ (n : ℚ) + 1 / 2
  odd : n % 2 = 1 → (n : ℚ) - 1 / 2 ≠ q ∧ q ≠ (n : ℚ) + 1 / 2

theorem rounded_nearest {num den : Nat} (hden : 0 < den) :
    Rounded ((num : ℚ) / den) (nearest num den) := by
  have hden' : (0 : ℚ) < den := by exact_mod_cast hden
  have hdivided : (num : ℚ) = (num / den : Nat) * den + (num % den : Nat) := by
    exact_mod_cast (Nat.div_add_mod' num den).symm
  have hsplit : (num : ℚ) / den = (num / den : Nat) + ((num % den : Nat) : ℚ) / den := by
    nth_rewrite 1 [hdivided]
    rw [add_div, mul_div_cancel_right₀ _ hden'.ne']
  have hrest : (0 : ℚ) ≤ ((num % den : Nat) : ℚ) / den := by positivity
  have hless : ((num % den : Nat) : ℚ) / den < 1 := by
    rw [div_lt_one hden']
    exact_mod_cast Nat.mod_lt num hden
  rw [nearest, hsplit]
  generalize num / den = quotient
  have hnext : ((quotient + 1 : Nat) : ℚ) = quotient + 1 := Nat.cast_succ quotient
  split_ifs with hbelow habove
  · have hhalf : ((num % den : Nat) : ℚ) / den < 1 / 2 := by
      rw [div_lt_div_iff₀ hden' (by norm_num)]
      exact_mod_cast (by omega : num % den * 2 < 1 * den)
    exact ⟨by linarith, by linarith, fun _ => ⟨by linarith, by linarith⟩⟩
  · have hhalf : 1 / 2 < ((num % den : Nat) : ℚ) / den := by
      rw [div_lt_div_iff₀ (by norm_num) hden']
      exact_mod_cast (by omega : 1 * den < num % den * 2)
    exact ⟨by linarith, by linarith, fun _ => ⟨by linarith, by linarith⟩⟩
  · -- Half a unit away from both neighbours, the even one is taken.
    have hhalf : ((num % den : Nat) : ℚ) / den = 1 / 2 := by
      rw [div_eq_div_iff hden'.ne' (by norm_num)]
      exact_mod_cast (by omega : num % den * 2 = 1 * den)
    rw [hhalf]
    obtain heven | hodd := Nat.mod_two_eq_zero_or_one quotient
    · rw [heven, Nat.add_zero]
      exact ⟨by linarith, le_rfl, fun h => absurd (heven.symm.trans h) (by decide)⟩
    · rw [hodd]
      exact ⟨by linarith, by linarith, fun h => by omega⟩

/-- The nearest whole number is as large as every whole number that the ratio reaches. -/
theorem Rounded.le_of_le {q : ℚ} {n bound : Nat} (h : Rounded q n) (hbound : (bound : ℚ) ≤ q) :
    bound ≤ n := by
  by_contra hlt
  have hle : (n : ℚ) + 1 ≤ bound := by exact_mod_cast Nat.lt_of_not_le hlt
  have := h.high
  linarith

theorem Rounded.le_of_lt {q : ℚ} {n bound : Nat} (h : Rounded q n) (hbound : q < bound) :
    n ≤ bound := by
  by_contra hlt
  have hle : (bound : ℚ) + 1 ≤ n := by exact_mod_cast Nat.lt_of_not_le hlt
  have := h.low
  linarith

theorem inUnits_eq {num den : Nat} (hden : 0 < den) (exponent : Int) :
    0 < (inUnits num den exponent).2 ∧
      ((inUnits num den exponent).1 : ℚ) / (inUnits num den exponent).2 =
        (num : ℚ) / den / 2 ^ exponent := by
  rw [inUnits]
  split_ifs with h
  · obtain ⟨n, hn⟩ : ∃ n : Nat, exponent = -(n : Int) := ⟨exponent.natAbs, by omega⟩
    refine ⟨hden, ?_⟩
    rw [hn]
    simp only [twoTo, Nat.pow_eq, Nat.cast_mul, Nat.cast_pow, Nat.cast_ofNat, Int.natAbs_neg,
      Int.natAbs_natCast, zpow_neg, zpow_natCast]
    field_simp
  · obtain ⟨n, rfl⟩ := Int.eq_ofNat_of_zero_le (Int.not_lt.mp h)
    refine ⟨Nat.mul_pos hden (twoTo_pos _), ?_⟩
    simp only [twoTo, Nat.pow_eq, Nat.cast_mul, Nat.cast_pow, Nat.cast_ofNat, Int.natAbs_natCast,
      zpow_natCast]
    field_simp

/-- An exponent for a ratio: in its units the ratio has 53 digits in base two, or fewer at the smallest
exponent. -/
structure Binade (q : ℚ) (exponent : Int) : Prop where
  least : minExponent ≤ exponent
  high : q / 2 ^ exponent < 2 ^ 53
  low : 2 ^ 52 ≤ q / 2 ^ exponent ∨ exponent = minExponent

/-- A number with a rounded significand, which may have been rounded up to the next power of two. -/
def packed (negative : Bool) (significand : Nat) (exponent : Int) : Binary64 :=
  let (significand, exponent) :=
    if significand = twoTo 53 then (twoTo 52, exponent + 1) else (significand, exponent)
  if maxExponent < exponent then .infinite negative
  else if significand = 0 then zero negative
  else .finite negative significand exponent

theorem packed_of_lt {significand : Nat} {exponent : Int} (hpos : 0 < significand)
    (hlt : significand < 2 ^ 53) (hmax : exponent ≤ maxExponent) (negative : Bool) :
    packed negative significand exponent = .finite negative significand exponent := by
  have hkept : significand ≠ twoTo 53 := hlt.ne
  rw [packed, if_neg hkept]
  dsimp only
  rw [if_neg (by omega), if_neg (by omega)]

theorem packed_carried {exponent : Int} (hmax : exponent + 1 ≤ maxExponent) (negative : Bool) :
    packed negative (2 ^ 53) exponent = .finite negative (2 ^ 52) (exponent + 1) := by
  have hcarried : 2 ^ 53 = twoTo 53 := rfl
  rw [packed, if_pos hcarried]
  dsimp only
  rw [if_neg (by omega)]
  rfl

section Ratio

variable {num den : Nat} (hnum : num ≠ 0) (hden : 0 < den)

include hnum hden

/-- A ratio lies between the powers of two that the lengths of its parts give. -/
theorem ratio_between :
    (2 : ℚ) ^ ((num.log2 : Int) - den.log2 - 1) ≤ (num : ℚ) / den ∧
      (num : ℚ) / den < 2 ^ ((num.log2 : Int) - den.log2 + 1) := by
  have hden' : (0 : ℚ) < den := by exact_mod_cast hden
  have hnum_low : (2 : ℚ) ^ num.log2 ≤ num := by exact_mod_cast Nat.log2_self_le hnum
  have hnum_high : (num : ℚ) < 2 ^ (num.log2 + 1) := by exact_mod_cast Nat.lt_log2_self
  have hden_low : (2 : ℚ) ^ den.log2 ≤ den := by exact_mod_cast Nat.log2_self_le hden.ne'
  have hden_high : (den : ℚ) ≤ 2 ^ (den.log2 + 1) := by exact_mod_cast Nat.lt_log2_self.le
  have hlow : (num.log2 : Int) - den.log2 - 1 = (num.log2 : Int) - ((den.log2 + 1 : Nat) : Int) := by
    push_cast
    ring
  have hhigh : (num.log2 : Int) - den.log2 + 1 = ((num.log2 + 1 : Nat) : Int) - den.log2 := by
    push_cast
    ring
  constructor
  · rw [hlow, zpow_sub₀ (by norm_num), zpow_natCast, zpow_natCast, div_le_div_iff₀ (by positivity) hden']
    calc (2 : ℚ) ^ num.log2 * den ≤ num * den := by gcongr
      _ ≤ num * 2 ^ (den.log2 + 1) := by gcongr
  · rw [hhigh, zpow_sub₀ (by norm_num), zpow_natCast, zpow_natCast, div_lt_div_iff₀ hden' (by positivity)]
    calc (num : ℚ) * 2 ^ den.log2 ≤ num * den := by gcongr
      _ < 2 ^ (num.log2 + 1) * den := by gcongr

/-- The exponent that is tried first is right or too small by one. -/
theorem guess_spec (guess : Int)
    (hguess : guess = max minExponent ((num.log2 : Int) - (den.log2 : Int) - 53)) :
    (num : ℚ) / den / 2 ^ guess < 2 ^ 54 ∧
      (2 ^ 52 ≤ (num : ℚ) / den / 2 ^ guess ∨ guess = minExponent) := by
  have hpower : (0 : ℚ) < 2 ^ guess := by positivity
  constructor
  · rw [div_lt_iff₀ hpower]
    refine (ratio_between hnum hden).2.trans_le ?_
    rw [← zpow_natCast, ← zpow_add₀ (by norm_num)]
    exact zpow_le_zpow_right₀ (by norm_num) (by push_cast; omega)
  · by_cases hleast : guess = minExponent
    · exact .inr hleast
    · refine .inl ?_
      rw [le_div_iff₀ hpower]
      refine le_trans ?_ (ratio_between hnum hden).1
      rw [← zpow_natCast, ← zpow_add₀ (by norm_num)]
      exact zpow_le_zpow_right₀ (by norm_num) (by push_cast; omega)

/-- A ratio is measured in units of its own exponent and rounded to a whole number of them. -/
theorem ofRatio_eq_packed (negative : Bool) :
    ∃ exponent : Int, Binade ((num : ℚ) / den) exponent ∧ ofRatio negative num den =
      packed negative (nearest (inUnits num den exponent).1 (inUnits num den exponent).2) exponent := by
  generalize hguess : max minExponent ((num.log2 : Int) - (den.log2 : Int) - 53) = guess
  obtain ⟨hhigh, hlow⟩ := guess_spec hnum hden guess hguess.symm
  obtain ⟨hunit, hratio⟩ := @inUnits_eq num den hden guess
  have hfloor : (inUnits num den guess).1 / (inUnits num den guess).2 < twoTo 53 ↔
      (num : ℚ) / den / 2 ^ guess < 2 ^ 53 := by
    rw [Nat.div_lt_iff_lt_mul hunit, ← hratio, div_lt_iff₀ (by exact_mod_cast hunit)]
    simp only [twoTo, Nat.pow_eq]
    exact_mod_cast Iff.rfl
  refine ⟨if (inUnits num den guess).1 / (inUnits num den guess).2 < twoTo 53 then guess else guess + 1,
    ?_, ?_⟩
  · have hleast : minExponent ≤ guess := hguess ▸ le_max_left _ _
    split_ifs with hsmall
    · exact ⟨hleast, hfloor.mp hsmall, hlow⟩
    · have hlarge := not_lt.mp (mt hfloor.mpr hsmall)
      have hhalf : (num : ℚ) / den / 2 ^ (guess + 1) = (num : ℚ) / den / 2 ^ guess / 2 := by
        rw [zpow_add_one₀ (by norm_num), div_mul_eq_div_div]
      refine ⟨by omega, ?_, .inl ?_⟩
      · rw [hhalf]
        linarith
      · rw [hhalf]
        linarith
  · rw [ofRatio, if_neg hnum]
    dsimp only
    rw [hguess]
    rfl

end Ratio

section Packed

variable {q : ℚ} {exponent : Int} {significand : Nat}

/-- The rounded significand makes a number in whose interval the ratio lies. -/
theorem within_of_rounded (hq : Binade q exponent) (hsignificand : Rounded (q / 2 ^ exponent) significand)
    (hpos : 0 < significand) (hlt : significand < 2 ^ 53) :
    Ordinary significand exponent ∧ (interval significand exponent).Within q := by
  have hpower : (0 : ℚ) < 2 ^ exponent := by positivity
  have hlarge : 2 ^ 52 ≤ significand ∨ exponent = minExponent :=
    hq.low.imp_left fun h => hsignificand.le_of_le (by exact_mod_cast h)
  have hhigh : (interval significand exponent).highest =
      ((significand : ℚ) + 1 / 2) * 2 ^ exponent := by
    rw [highest_interval]
    ring
  refine ⟨⟨hpos, hlt, hq.least, hlarge⟩, ?_⟩
  by_cases hnarrow : significand = twoTo 52 ∧ minExponent < exponent
  · -- The ratio is not below the least significand, so the narrow gap is not used.
    have hreach := hq.low.resolve_right (by omega)
    have hleast : (significand : ℚ) = 2 ^ 52 := by
      rw [hnarrow.1]
      norm_num [twoTo]
    refine ⟨?_, ?_, fun hopen => ?_⟩
    · rw [lowest_interval hpos, lowerGap, if_pos hnarrow, hleast, ← le_div_iff₀ hpower]
      push_cast
      linarith
    · rw [hhigh]
      exact (div_le_iff₀ hpower).mp hsignificand.high
    · have heven : significand % 2 = 0 := by
        rw [hnarrow.1]
        rfl
      exact absurd hopen (by simp [interval, heven])
  · have hlow : (interval significand exponent).lowest =
        ((significand : ℚ) - 1 / 2) * 2 ^ exponent := by
      rw [lowest_interval hpos, lowerGap, if_neg hnarrow]
      push_cast
      ring
    refine ⟨?_, ?_, fun hopen => ?_⟩
    · rw [hlow]
      exact (le_div_iff₀ hpower).mp hsignificand.low
    · rw [hhigh]
      exact (div_le_iff₀ hpower).mp hsignificand.high
    · have hodd : significand % 2 = 1 := by
        simp only [interval, beq_eq_false_iff_ne] at hopen
        omega
      obtain ⟨hbelow, habove⟩ := hsignificand.odd hodd
      rw [hlow, hhigh]
      constructor
      · intro heq
        exact hbelow (by rw [← heq, mul_div_cancel_right₀ _ hpower.ne'])
      · intro heq
        exact habove (by rw [heq, mul_div_cancel_right₀ _ hpower.ne'])

/-- A significand that is rounded up to the next power of two makes the least number of the next
exponent. -/
theorem within_of_carried (hq : Binade q exponent) (hsignificand : Rounded (q / 2 ^ exponent) (2 ^ 53)) :
    Ordinary (2 ^ 52) (exponent + 1) ∧ (interval (2 ^ 52) (exponent + 1)).Within q := by
  have hleast := hq.least
  have hpower : (0 : ℚ) < 2 ^ exponent := by positivity
  have hlow := hsignificand.low
  have hhigh := hq.high
  rw [le_div_iff₀ hpower] at hlow
  rw [div_lt_iff₀ hpower] at hhigh
  have hnext : (2 : ℚ) ^ (exponent + 1) = 2 * 2 ^ exponent := by
    rw [zpow_add_one₀ (by norm_num), mul_comm]
  refine ⟨⟨by decide, by decide, by omega, .inl le_rfl⟩, ?_, ?_, fun hopen => ?_⟩
  · have hgap : lowerGap (2 ^ 52) (exponent + 1) = 1 := by
      rw [lowerGap, if_pos ⟨rfl, by omega⟩]
    rw [lowest_interval (by decide), hgap, hnext]
    push_cast at hlow ⊢
    linarith
  · rw [highest_interval, hnext]
    push_cast
    linarith
  · exact absurd hopen (by simp [interval])

end Packed

theorem lowest_pos {significand : Nat} {exponent : Int} (h : 0 < significand) :
    0 < (interval significand exponent).lowest := by
  have hgap := lowerGap_le significand exponent
  have hone : (1 : ℚ) ≤ significand := by exact_mod_cast h
  rw [lowest_interval h]
  refine mul_pos ?_ (by positivity)
  linarith

theorem two_pow_lt_ten_pow : 2 ^ 1024 < 10 ^ 309 ∧ 2 ^ 1075 < 10 ^ 330 := by
  decide +kernel

section Within

variable {significand : Nat} {exponent : Int} (h : Ordinary significand exponent)

include h

/-- A ratio in the interval of a number is not rounded to zero. -/
theorem pos_of_within {q : ℚ} {found : Int} {rounded : Nat}
    (hq : (interval significand exponent).Within q) (hfound : Binade q found)
    (hrounded : Rounded (q / 2 ^ found) rounded) : 0 < rounded := by
  by_contra hzero
  obtain rfl : rounded = 0 := by omega
  have hpower : (0 : ℚ) < 2 ^ found := by positivity
  have hhigh := hrounded.high
  rw [div_le_iff₀ hpower] at hhigh
  have hleast : found = minExponent := by
    refine hfound.low.resolve_left fun hlow => ?_
    rw [le_div_iff₀ hpower] at hlow
    push_cast at hhigh
    nlinarith
  have hstep : (2 : ℚ) ^ minExponent ≤ 2 ^ exponent := zpow_le_zpow_right₀ (by norm_num) h.least
  have hlow := hq.low
  have hone : (1 : ℚ) ≤ significand := by exact_mod_cast h.pos
  have hunit : (0 : ℚ) < 2 ^ exponent := by positivity
  have hgap := lowerGap_le significand exponent
  rw [lowest_interval h.pos] at hlow
  rw [hleast] at hhigh
  push_cast at hhigh
  -- Only half of the smallest number is left, and that is not in its interval.
  have hsignificand : (significand : ℚ) = 1 := by nlinarith
  obtain rfl : significand = 1 := by exact_mod_cast hsignificand
  have hgap' : lowerGap 1 exponent = 2 := by
    rw [lowerGap, if_neg]
    rintro ⟨heq, -⟩
    exact absurd heq (by decide)
  refine (hq.ends (by simp [interval])).1 (le_antisymm hq.low ?_)
  rw [lowest_interval h.pos, hgap']
  push_cast
  nlinarith

/-- A ratio in the interval of a number is rounded to that number. -/
theorem ofRatio_of_within {num den : Nat} (hmax : exponent ≤ maxExponent) (hden : 0 < den)
    (hq : (interval significand exponent).Within ((num : ℚ) / den)) (negative : Bool) :
    ofRatio negative num den = .finite negative significand exponent := by
  have hnum : num ≠ 0 := by
    rintro rfl
    have hlow := (lowest_pos h.pos).trans_le hq.low
    simp at hlow
  obtain ⟨found, hbinade, hpacked⟩ := ofRatio_eq_packed hnum hden negative
  obtain ⟨hunit, hratio⟩ := @inUnits_eq num den hden found
  have hrounded := @rounded_nearest (inUnits num den found).1 _ hunit
  rw [hratio] at hrounded
  rw [hpacked]
  generalize nearest (inUnits num den found).1 (inUnits num den found).2 = rounded at *
  have hpos := pos_of_within h hq hbinade hrounded
  have hle : rounded ≤ 2 ^ 53 := hrounded.le_of_lt (by exact_mod_cast hbinade.high)
  obtain rfl | hlt := Nat.eq_or_lt_of_le hle
  · obtain ⟨hordinary, hwithin⟩ := within_of_carried hbinade hrounded
    obtain ⟨rfl, rfl⟩ := within_unique h hordinary hq hwithin
    exact packed_carried hmax negative
  · obtain ⟨hordinary, hwithin⟩ := within_of_rounded hbinade hrounded hpos hlt
    obtain ⟨rfl, rfl⟩ := within_unique h hordinary hq hwithin
    exact packed_of_lt hpos hlt hmax negative

/-- The numbers of the format lie between these powers of ten. -/
theorem within_bounds {q : ℚ} (hmax : exponent ≤ maxExponent)
    (hq : (interval significand exponent).Within q) : (10 : ℚ) ^ (-330 : Int) < q ∧ q < 10 ^ (309 : Int) := by
  have hgap := lowerGap_le significand exponent
  have hone : (1 : ℚ) ≤ significand := by exact_mod_cast h.pos
  have hlt : (significand : ℚ) + 1 ≤ 2 ^ 53 := by exact_mod_cast h.lt
  constructor
  · refine lt_of_lt_of_le ?_ hq.low
    have hstep : (2 : ℚ) ^ minExponent ≤ 2 ^ exponent := zpow_le_zpow_right₀ (by norm_num) h.least
    have hleast : (10 : ℚ) ^ (-330 : Int) < 1 / 2 * 2 ^ minExponent := by
      have hpower : (2 : ℚ) ^ 1075 < 10 ^ 330 := by exact_mod_cast two_pow_lt_ten_pow.2
      have hhalf : (1 : ℚ) / 2 * 2 ^ minExponent = (2 ^ 1075)⁻¹ := by
        rw [minExponent, ← zpow_natCast, ← zpow_neg, one_div, ← zpow_neg_one, ← zpow_add₀ (by norm_num)]
        rfl
      rw [hhalf, zpow_neg]
      exact inv_strictAnti₀ (by positivity) (by exact_mod_cast hpower)
    rw [lowest_interval h.pos]
    refine hleast.trans_le (mul_le_mul ?_ hstep (by positivity) ?_)
    · linarith
    · linarith
  · refine lt_of_le_of_lt hq.high ?_
    have hstep : (2 : ℚ) ^ exponent ≤ 2 ^ maxExponent := zpow_le_zpow_right₀ (by norm_num) hmax
    have hlargest : (2 : ℚ) ^ 53 * 2 ^ maxExponent < 10 ^ (309 : Int) := by
      have hpower : (2 : ℚ) ^ 1024 < 10 ^ 309 := by exact_mod_cast two_pow_lt_ten_pow.1
      have hsum : (2 : ℚ) ^ 53 * 2 ^ maxExponent = 2 ^ 1024 := by
        rw [maxExponent, ← zpow_natCast, ← zpow_natCast, ← zpow_add₀ (by norm_num)]
        rfl
      rw [hsum]
      exact_mod_cast hpower
    rw [highest_interval]
    refine lt_of_le_of_lt (mul_le_mul ?_ hstep (by positivity) (by norm_num)) hlargest
    linarith

/-- A number is read from every decimal in its interval. -/
theorem ofDecimal_of_within {digits : Nat} {power : Int} (hmax : exponent ≤ maxExponent)
    (hq : (interval significand exponent).Within (digits * 10 ^ power)) (negative : Bool) :
    ofDecimal negative digits power = .finite negative significand exponent := by
  obtain ⟨hlow, hhigh⟩ := within_bounds h hmax hq
  have hdigits : digits ≠ 0 := by
    rintro rfl
    have hpositive := (lowest_pos h.pos).trans_le hq.low
    simp at hpositive
  -- The count of digits does not put the decimal outside the range of the format.
  have hpos : 0 < (Nat.toDigits 10 digits).length := Nat.length_toDigits_pos
  obtain ⟨habove, hbelow⟩ := pow_length_toDigits hdigits
  generalize hlength : (Nat.toDigits 10 digits).length = length at *
  have hpower : (0 : ℚ) < 10 ^ power := by positivity
  have hleast : -330 < power + length := by
    have hless : (10 : ℚ) ^ (-330 : Int) < 10 ^ (power + length) := by
      rw [zpow_add₀ (by norm_num), mul_comm, zpow_natCast]
      exact hlow.trans (mul_lt_mul_of_pos_right (by exact_mod_cast hbelow) hpower)
    exact (zpow_lt_zpow_iff_right₀ (by norm_num)).mp hless
  have hlargest : power + length < 310 := by
    have hless : (10 : ℚ) ^ (power + (length - 1 : Nat)) < 10 ^ (309 : Int) := by
      rw [zpow_add₀ (by norm_num), mul_comm, zpow_natCast]
      exact lt_of_le_of_lt (mul_le_mul_of_nonneg_right (by exact_mod_cast habove) hpower.le) hhigh
    have := (zpow_lt_zpow_iff_right₀ (by norm_num)).mp hless
    omega
  rw [← gridPlace_eq] at hq
  rw [ofDecimal, if_neg hdigits]
  dsimp only
  rw [hlength, if_neg (by omega), if_neg (by omega),
    ← ofRatio_of_within h hmax (gridPlace_pos power digits) hq negative, gridPlace]
  split_ifs <;> rfl

end Within

section Canonical

theorem canonical_zero (negative : Bool) : (zero negative).Canonical :=
  ⟨by decide, le_rfl, by decide, .inr rfl⟩

/-- A rounded significand makes a number in canonical form, with a carry or without. -/
theorem canonical_packed {q : ℚ} {exponent : Int} {significand : Nat} (hq : Binade q exponent)
    (hsignificand : Rounded (q / 2 ^ exponent) significand) (negative : Bool) :
    (packed negative significand exponent).Canonical := by
  have hleast := hq.least
  have hle : significand ≤ 2 ^ 53 := hsignificand.le_of_lt (by exact_mod_cast hq.high)
  obtain rfl | hlt := Nat.eq_or_lt_of_le hle
  · by_cases hmax : exponent + 1 ≤ maxExponent
    · rw [packed_carried hmax]
      exact ⟨by decide, by omega, hmax, .inl le_rfl⟩
    · have hcarried : 2 ^ 53 = twoTo 53 := rfl
      rw [packed, if_pos hcarried]
      dsimp only
      rw [if_pos (by omega)]
      trivial
  · have hkept : significand ≠ twoTo 53 := hlt.ne
    rw [packed, if_neg hkept]
    dsimp only
    split_ifs with hmax hzero
    · trivial
    · exact canonical_zero negative
    · have hordinary := (within_of_rounded hq hsignificand (Nat.pos_of_ne_zero hzero) hlt).1
      exact ⟨hlt, hleast, by omega, hordinary.large⟩

theorem canonical_ofRatio (negative : Bool) {num den : Nat} (hden : 0 < den) :
    (ofRatio negative num den).Canonical := by
  by_cases hnum : num = 0
  · rw [ofRatio, if_pos hnum]
    exact canonical_zero negative
  · obtain ⟨exponent, hbinade, hpacked⟩ := ofRatio_eq_packed hnum hden negative
    obtain ⟨hunit, hratio⟩ := @inUnits_eq num den hden exponent
    have hrounded := @rounded_nearest (inUnits num den exponent).1 _ hunit
    rw [hratio] at hrounded
    rw [hpacked]
    exact canonical_packed hbinade hrounded negative

/-- What is read from a decimal is in canonical form. -/
theorem canonical_ofDecimal (negative : Bool) (digits : Nat) (exponent : Int) :
    (ofDecimal negative digits exponent).Canonical := by
  rw [ofDecimal]
  dsimp only
  split_ifs
  · exact canonical_zero negative
  · trivial
  · exact canonical_zero negative
  · exact canonical_ofRatio negative (Nat.pow_pos (by decide))
  · exact canonical_ofRatio negative Nat.one_pos

end Canonical

end DocCompiler.Binary64
