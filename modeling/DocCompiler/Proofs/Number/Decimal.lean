import Mathlib.Data.List.DropRight
import Mathlib.Tactic.SplitIfs
import DocCompiler.Number.Shortest
import DocCompiler.Proofs.Text.Line

/-!
The texts of decimals. The digits of a decimal and the place of its point can be read off its text.
-/

namespace DocCompiler

open Text

/-- A character of a decimal. -/
def isDecimalChar (c : Char) : Bool :=
  c.isDigit || c == '.' || c == 'e' || c == '-' || c == '+'

theorem isDecimalChar_of_isDigit {c : Char} (h : c.isDigit = true) : isDecimalChar c = true := by
  simp [isDecimalChar, h]

theorem ne_of_isDigit {c other : Char} (h : c.isDigit = true) (hother : other.isDigit = false) :
    c ≠ other := by
  rintro rfl
  exact absurd (h.symm.trans hother) (by decide)

theorem isDigit_of_mem_replicate {count : Nat} {c : Char} (h : c ∈ List.replicate count '0') :
    c.isDigit = true := by
  rw [List.eq_of_mem_replicate h]
  decide

namespace Binary64.Decimal

/-- A row of digits, the first and the last of which are not zero. -/
structure Normal (d : Decimal) : Prop where
  digits : ∀ c ∈ d.digits, c.isDigit = true
  ne_nil : d.digits ≠ []
  head : Stops (· == '0') d.digits
  last : Stops (· == '0') d.digits.reverse

/-- A text without the zeros on either side. -/
def withoutZeros (text : List Char) : List Char :=
  dropEndWhile (· == '0') (text.dropWhile (· == '0'))

/-- The digits that a text shows in front of its exponent, without the zeros on either side. -/
def shownDigits (front : List Char) : List Char :=
  withoutZeros (front.filter (· != '.'))

/-- The place of the point with regard to the first digit that is not zero. -/
def shownPoint (front : List Char) : Int :=
  ((front.takeWhile (· != '.')).length : Int) - ((front.filter (· != '.')).takeWhile (· == '0')).length

/-- The exponent behind the front of a text. -/
def shownExponent : List Char → Int
  | 'e' :: '-' :: size => -(Nat.ofDigitChars 10 size 0 : Int)
  | 'e' :: '+' :: size => (Nat.ofDigitChars 10 size 0 : Int)
  | _ => 0

/-- The decimal that a text shows. -/
def shown (text : List Char) : Decimal :=
  let front := text.takeWhile (· != 'e')
  { digits := shownDigits front, point := shownPoint front + shownExponent (text.drop front.length) }

section Zeros

variable {d : Decimal} (h : d.Normal) (before behind : Nat)

include h

theorem takeWhile_zeros :
    (List.replicate before '0' ++ (d.digits ++ List.replicate behind '0')).takeWhile (· == '0') =
      List.replicate before '0' := by
  refine takeWhile_append_of_stops (fun c hc => beq_iff_eq.mpr (List.eq_of_mem_replicate hc)) ?_
  obtain ⟨c, rest, hdigits⟩ := List.exists_cons_of_ne_nil h.ne_nil
  have hhead := h.head
  rw [hdigits] at hhead ⊢
  exact .cons hhead.head

theorem withoutZeros_zeros :
    withoutZeros (List.replicate before '0' ++ (d.digits ++ List.replicate behind '0')) = d.digits := by
  have hzeros (count : Nat) : ∀ c ∈ List.replicate count '0', (c == '0') = true := fun c hc =>
    beq_iff_eq.mpr (List.eq_of_mem_replicate hc)
  have hdrop {text : List Char} (htext : Stops (· == '0') text) : text.dropWhile (· == '0') = text := by
    cases text with
    | nil => rfl
    | cons c rest => rw [List.dropWhile_cons, if_neg (by simpa using htext.head)]
  have hfront : Stops (· == '0') (d.digits ++ List.replicate behind '0') := by
    obtain ⟨c, rest, hdigits⟩ := List.exists_cons_of_ne_nil h.ne_nil
    have hhead := h.head
    rw [hdigits] at hhead ⊢
    exact .cons hhead.head
  rw [withoutZeros, List.dropWhile_append_of_pos (hzeros before), hdrop hfront, dropEndWhile,
    List.reverse_append, List.reverse_replicate, List.dropWhile_append_of_pos (hzeros behind), hdrop h.last,
    List.reverse_reverse]

end Zeros

section Layout

variable {d : Decimal} (h : d.Normal)

theorem filter_of_digits {text : List Char} (h : ∀ c ∈ text, c.isDigit = true) :
    text.filter (· != '.') = text := by
  refine List.filter_eq_self.mpr fun c hc => ?_
  simpa using ne_of_isDigit (h c hc) (by decide)

/-- What a text with a point shows. -/
theorem shown_pointed {whole fraction : List Char} (hwhole : ∀ c ∈ whole, c.isDigit = true)
    (hfraction : ∀ c ∈ fraction, c.isDigit = true) :
    shownDigits (whole ++ '.' :: fraction) = withoutZeros (whole ++ fraction) ∧
      shownPoint (whole ++ '.' :: fraction) =
        (whole.length : Int) - ((whole ++ fraction).takeWhile (· == '0')).length := by
  have hfilter : (whole ++ '.' :: fraction).filter (· != '.') = whole ++ fraction := by
    rw [List.filter_append, filter_of_digits hwhole, List.filter_cons_of_neg (by decide),
      filter_of_digits hfraction]
  have htake : (whole ++ '.' :: fraction).takeWhile (· != '.') = whole := by
    refine takeWhile_append_of_stops (fun c hc => ?_) (.cons (by decide))
    simpa using ne_of_isDigit (hwhole c hc) (by decide)
  rw [shownDigits, shownPoint, hfilter, htake]
  exact ⟨rfl, rfl⟩

theorem exponent_notMem {whole fraction : List Char} (hwhole : ∀ c ∈ whole, c.isDigit = true)
    (hfraction : ∀ c ∈ fraction, c.isDigit = true) : 'e' ∉ whole ++ '.' :: fraction := by
  intro hmem
  obtain hmem | hmem := List.mem_append.mp hmem
  · exact absurd (hwhole _ hmem) (by decide)
  · obtain hmem | hmem := List.mem_cons.mp hmem
    · exact absurd hmem (by decide)
    · exact absurd (hfraction _ hmem) (by decide)

/-- A text without an exponent. -/
theorem shown_of_notMem {text : List Char} (hnot : 'e' ∉ text) :
    shown text = ⟨shownDigits text, shownPoint text⟩ := by
  have hfront : text.takeWhile (· != 'e') = text := by
    refine List.takeWhile_eq_self_iff.mpr fun c hc => ?_
    rw [bne_iff_ne]
    rintro rfl
    exact hnot hc
  rw [shown, hfront]
  simp [shownExponent]

include h

/-- The text of a decimal with a point among its digits, or with zeros up to its point. -/
theorem shown_fixed {whole fraction : List Char} {before behind : Nat}
    (hwhole : ∀ c ∈ whole, c.isDigit = true) (hfraction : ∀ c ∈ fraction, c.isDigit = true)
    (hdigits : whole ++ fraction = List.replicate before '0' ++ (d.digits ++ List.replicate behind '0'))
    (hpoint : d.point = (whole.length : Int) - before) :
    shown (whole ++ '.' :: fraction) = d := by
  obtain ⟨hshown, hplace⟩ := shown_pointed hwhole hfraction
  rw [shown_of_notMem (exponent_notMem hwhole hfraction), hshown, hplace, hdigits, withoutZeros_zeros h, takeWhile_zeros h,
    List.length_replicate, ← hpoint]

omit h in
/-- The text of a decimal with an exponent. -/
theorem shown_scaled {front size : List Char} (hnot : 'e' ∉ front)
    (hdigits : shownDigits front = d.digits) (hplace : shownPoint front = 1)
    (hexponent : shownExponent ('e' :: size) = d.point - 1) : shown (front ++ 'e' :: size) = d := by
  have hfront : (front ++ 'e' :: size).takeWhile (· != 'e') = front := by
    refine takeWhile_append_of_stops (fun c hc => ?_) (.cons (by decide))
    rw [bne_iff_ne]
    rintro rfl
    exact hnot hc
  have hsum : 1 + (d.point - 1) = d.point := by omega
  rw [shown, hfront, List.drop_left, hdigits, hplace, hexponent, hsum]

omit h in
theorem shownExponent_size (power : Int) :
    shownExponent ('e' :: (if power < 0 then '-' else '+') ::
      (List.replicate (2 - (Nat.toDigits 10 power.natAbs).length) '0' ++ Nat.toDigits 10 power.natAbs)) =
        power := by
  have hsize : Nat.ofDigitChars 10 (List.replicate (2 - (Nat.toDigits 10 power.natAbs).length) '0' ++
      Nat.toDigits 10 power.natAbs) 0 = power.natAbs := by
    rw [Nat.ofDigitChars_append, Nat.ofDigitChars_replicate_zero, Nat.mul_zero, Nat.ofDigitChars_ten_toDigits]
  split_ifs with hpower
  · rw [shownExponent, hsize]
    omega
  · rw [shownExponent, hsize]
    omega

/-- A decimal can be read off its text. -/
theorem shown_text : shown d.text = d := by
  have hzero : ∀ c ∈ ['0'], c.isDigit = true := List.all_iff_forall_prop.mp (by decide)
  have hzeros (count : Nat) : ∀ c ∈ List.replicate count '0', c.isDigit = true := fun c hc =>
    isDigit_of_mem_replicate hc
  have happend {text more : List Char} (htext : ∀ c ∈ text, c.isDigit = true)
      (hmore : ∀ c ∈ more, c.isDigit = true) : ∀ c ∈ text ++ more, c.isDigit = true := fun c hc =>
    (List.mem_append.mp hc).elim (htext c) (hmore c)
  have htake (count : Nat) : ∀ c ∈ d.digits.take count, c.isDigit = true := fun c hc =>
    h.digits c (List.mem_of_mem_take hc)
  have hdrop (count : Nat) : ∀ c ∈ d.digits.drop count, c.isDigit = true := fun c hc =>
    h.digits c (List.mem_of_mem_drop hc)
  rw [text]
  dsimp only
  by_cases hfixed : -4 < d.point ∧ d.point ≤ 16
  · rw [if_pos hfixed]
    split_ifs with hbefore hlong
    · refine @shown_fixed d h ['0'] _ ((-d.point).toNat + 1) 0 hzero
        (happend (hzeros _) h.digits) ?_ ?_
      · simp [List.replicate_succ]
      · rw [List.length_singleton]
        omega
    · refine @shown_fixed d h _ _ 0 ((d.point - d.digits.length).toNat + 1)
        (happend h.digits (hzeros _)) hzero ?_ ?_
      · simp [List.replicate_succ']
      · rw [List.length_append, List.length_replicate]
        omega
    · refine @shown_fixed d h _ _ 0 0 (htake _) (hdrop _) ?_ ?_
      · simp
      · rw [List.length_take]
        omega
  · rw [if_neg hfixed]
    have hexponent := shownExponent_size (d.point - 1)
    have hplain := takeWhile_zeros h 0 0
    have hshown := withoutZeros_zeros h 0 0
    simp only [List.replicate_zero, List.nil_append, List.append_nil] at hplain hshown
    obtain ⟨first, rest, hdigits⟩ := List.exists_cons_of_ne_nil h.ne_nil
    have hchars : ∀ c ∈ first :: rest, c.isDigit = true := hdigits ▸ h.digits
    rw [List.forall_mem_cons] at hchars
    rw [hdigits] at hplain hshown ⊢
    cases rest with
    | nil =>
        have hfilter : [first].filter (· != '.') = [first] := filter_of_digits (by simpa using hchars.1)
        refine @shown_scaled _ [first] _ ?_ ?_ ?_ hexponent
        · simpa using (ne_of_isDigit hchars.1 (by decide)).symm
        · rw [shownDigits, hfilter, hshown, hdigits]
        · rw [shownPoint, hfilter, hplain]
          simp [@ne_of_isDigit _ '.' hchars.1 (by decide)]
    | cons second rest =>
        obtain ⟨hmantissa, hplace⟩ := @shown_pointed [first] _ (by simpa using hchars.1) hchars.2
        refine @shown_scaled _ (first :: '.' :: second :: rest) _ ?_ ?_ ?_ hexponent
        · exact @exponent_notMem [first] _ (by simpa using hchars.1) hchars.2
        · exact (hmantissa.trans hshown).trans hdigits.symm
        · refine hplace.trans ?_
          rw [List.singleton_append, hplain]
          rfl

end Layout

/-- Different decimals have different texts. -/
theorem text_injective {d other : Decimal} (h : d.Normal) (hother : other.Normal)
    (htext : d.text = other.text) : d = other := by
  rw [← shown_text h, htext, shown_text hother]

/-- How decimals are laid out: digits with a point among them, or a first digit with a fraction and an
exponent. -/
inductive Layout : List Char → Prop
  | fixed {first : Char} {whole fraction : List Char} (hfirst : first.isDigit = true)
      (hwhole : ∀ c ∈ whole, c.isDigit = true) (hfraction : ∀ c ∈ fraction, c.isDigit = true) :
      Layout (first :: (whole ++ '.' :: fraction))
  | scaled {first sign : Char} {tail size : List Char} (hfirst : first.isDigit = true)
      (htail : ∀ c ∈ tail, c.isDigit = true ∨ c = '.') (hsign : sign = '-' ∨ sign = '+')
      (hsize : ∀ c ∈ size, c.isDigit = true) : Layout (first :: (tail ++ 'e' :: sign :: size))

namespace Layout

variable {text : List Char}

theorem of_whole {whole fraction : List Char} (hne : whole ≠ []) (hwhole : ∀ c ∈ whole, c.isDigit = true)
    (hfraction : ∀ c ∈ fraction, c.isDigit = true) : Layout (whole ++ '.' :: fraction) := by
  obtain ⟨first, rest, rfl⟩ := List.exists_cons_of_ne_nil hne
  rw [List.forall_mem_cons] at hwhole
  exact .fixed hwhole.1 hwhole.2 hfraction

theorem exists_cons (h : Layout text) : ∃ c rest, text = c :: rest ∧ c.isDigit = true := by
  cases h with
  | fixed hfirst => exact ⟨_, _, rfl, hfirst⟩
  | scaled hfirst => exact ⟨_, _, rfl, hfirst⟩

theorem isDecimalChar (h : Layout text) : ∀ c ∈ text, isDecimalChar c = true := by
  cases h with
  | fixed hfirst hwhole hfraction =>
      simp only [List.forall_mem_cons, List.forall_mem_append]
      exact ⟨isDecimalChar_of_isDigit hfirst, fun c hc => isDecimalChar_of_isDigit (hwhole c hc), by decide,
        fun c hc => isDecimalChar_of_isDigit (hfraction c hc)⟩
  | scaled hfirst htail hsign hsize =>
      simp only [List.forall_mem_cons, List.forall_mem_append]
      refine ⟨isDecimalChar_of_isDigit hfirst, fun c hc => ?_, by decide, ?_,
        fun c hc => isDecimalChar_of_isDigit (hsize c hc)⟩
      · obtain hc | rfl := htail c hc
        · exact isDecimalChar_of_isDigit hc
        · decide
      · obtain rfl | rfl := hsign <;> decide

theorem point_or_exponent (h : Layout text) : '.' ∈ text ∨ 'e' ∈ text := by
  cases h with
  | fixed => exact .inl (by simp)
  | scaled => exact .inr (by simp)

end Layout

/-- The text of a decimal is laid out like one. -/
theorem layout_text {d : Decimal} (h : ∀ c ∈ d.digits, c.isDigit = true) : Layout d.text := by
  have hzeros (count : Nat) : ∀ c ∈ List.replicate count '0', c.isDigit = true := fun c hc =>
    isDigit_of_mem_replicate hc
  have hzero : ∀ c ∈ ['0'], c.isDigit = true := List.all_iff_forall_prop.mp (by decide)
  rw [text]
  dsimp only
  by_cases hfixed : -4 < d.point ∧ d.point ≤ 16
  · rw [if_pos hfixed]
    split_ifs with hbefore hlong
    · exact @Layout.fixed '0' [] _ (by decide) (by simp) (List.forall_mem_append.mpr ⟨hzeros _, h⟩)
    · refine .of_whole ?_ (List.forall_mem_append.mpr ⟨h, hzeros _⟩) hzero
      rw [← List.length_pos_iff, List.length_append, List.length_replicate]
      omega
    · refine .of_whole ?_ (fun c hc => h c (List.mem_of_mem_take hc)) fun c hc => h c (List.mem_of_mem_drop hc)
      rw [← List.length_pos_iff, List.length_take]
      omega
  · rw [if_neg hfixed]
    have hsign : (if d.point - 1 < 0 then '-' else '+') = '-' ∨ (if d.point - 1 < 0 then '-' else '+') = '+' := by
      split_ifs
      · exact .inl rfl
      · exact .inr rfl
    have hsize : ∀ c ∈ List.replicate (2 - (Nat.toDigits 10 (d.point - 1).natAbs).length) '0' ++
        Nat.toDigits 10 (d.point - 1).natAbs, c.isDigit = true :=
      List.forall_mem_append.mpr ⟨hzeros _, fun c hc => Nat.isDigit_of_mem_toDigits (by decide) (by decide) hc⟩
    split
    · exact @Layout.scaled _ _ [] _ (by decide) (by simp) hsign hsize
    · rename_i first hdigits
      exact @Layout.scaled _ _ [] _ (h first (by simp [hdigits])) (by simp) hsign hsize
    · rename_i first rest _ hdigits
      refine @Layout.scaled _ _ ('.' :: rest) _ (h first (by simp [hdigits])) ?_ hsign hsize
      rw [List.forall_mem_cons]
      exact ⟨.inr rfl, fun c hc => .inl (h c (by simp [hdigits, hc]))⟩

end Binary64.Decimal

end DocCompiler
