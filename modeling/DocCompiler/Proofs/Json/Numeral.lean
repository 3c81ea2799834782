import DocCompiler.Proofs.Json.Line
import DocCompiler.Proofs.Number.Rounding

/-!
Numbers in JSON. A number is read back from its text, whatever stands behind it that is not part of a
number.
-/

namespace DocCompiler

namespace Text

theorem Stops.mono {test other : Char → Bool} {text : List Char}
    (h : ∀ c, other c = true → test c = true) (htext : Stops test text) : Stops other text := by
  intro c hc
  rw [← Bool.not_eq_true]
  intro hother
  exact absurd ((h c hother).symm.trans (htext c hc)) (by decide)

theorem digitsValue_eq {digits : List Char} (h : ∀ c ∈ digits, c.isDigit = true) :
    digitsValue digits = Nat.ofDigitChars 10 digits 0 := by
  rw [digitsValue, Nat.ofDigitChars]
  generalize 0 = start
  induction digits generalizing start with
  | nil => rfl
  | cons c digits ih =>
      rw [List.forall_mem_cons] at h
      rw [List.foldl_cons, List.foldl_cons, digitValue?, if_pos h.1]
      exact ih h.2 _

end Text

open Text

theorem tenTo_le {m n : Nat} (h : m ≤ n) : tenTo m ≤ tenTo n :=
  Nat.pow_le_pow_right (by decide) h

theorem length_toDigits_le {n count : Nat} (hcount : 0 < count) (h : n < tenTo count) :
    (Nat.toDigits 10 n).length ≤ count :=
  (Nat.length_toDigits_le_iff (by decide) hcount).mpr h

namespace Number

theorem takeDigits_eq {digits : List Char} (h : ∀ c ∈ digits, c.isDigit = true) :
    takeDigits digits = (digits, []) := by
  induction digits with
  | nil => rfl
  | cons c digits ih =>
      rw [List.forall_mem_cons] at h
      have hdecimal : isDecimal c = true := by simp [isDecimal, digitValue?, h.1]
      rw [takeDigits, if_pos hdecimal, ih h.2]
      rintro other rest rfl -
      exact absurd h.1 (by decide)

theorem readExponent_eq {sign : Char} {size : List Char} (hsign : sign = '-' ∨ sign = '+')
    (hne : size ≠ []) (hsize : ∀ c ∈ size, c.isDigit = true) :
    readExponent ('e' :: sign :: size) = some (Binary64.Decimal.shownExponent ('e' :: sign :: size)) := by
  obtain ⟨c, rest, rfl⟩ := List.exists_cons_of_ne_nil hne
  have hnumeral : takeNumeral (c :: rest) = (c :: rest, []) := by
    rw [takeNumeral, takeDigits_eq hsize]
    rintro other heq
    obtain rfl := (List.cons.inj heq).1
    exact absurd (hsize _ List.mem_cons_self) (by decide)
  obtain rfl | rfl := hsign
  · simp only [readExponent, takeSign, hnumeral, digitsValue_eq hsize]
    rfl
  · simp only [readExponent, takeSign, hnumeral, digitsValue_eq hsize]
    rfl

end Number

namespace Json

/-- The parts of a number as it is written: its sign, the digits in front of its point and behind it,
and the exponent with its mark. -/
structure Numeral where
  negative : Bool
  whole : List Char
  fraction : List Char
  power : List Char

namespace Numeral

/-- The digits behind a point, with the point. -/
def pointed : List Char → List Char
  | [] => []
  | digits => '.' :: digits

/-- A number without its sign. -/
def unsigned (n : Numeral) : List Char :=
  n.whole ++ (pointed n.fraction ++ n.power)

/-- A number as it is written. -/
def text (n : Numeral) : List Char :=
  if n.negative then '-' :: n.unsigned else n.unsigned

/-- The exponent, zero if there is none. -/
def exponent (n : Numeral) : Int :=
  (Number.readExponent n.power).getD 0 - (n.fraction.length : Int)

/-- What is read from the parts. -/
def number (n : Numeral) : Except ReadError Number :=
  if n.fraction.isEmpty && n.power.isEmpty then
    match Number.ofDigits n.negative n.whole with
    | .ok value => .ok (.int value)
    | .error _ => .error .tooLong
  else .ok (.float (Binary64.ofDecimal n.negative (digitsValue (n.whole ++ n.fraction)) n.exponent))

/-- The parts are of digits, with a sign in the exponent, and no zero stands in front of other digits. -/
structure Valid (n : Numeral) : Prop where
  whole : ∀ c ∈ n.whole, c.isDigit = true
  ne_nil : n.whole ≠ []
  start : n.whole = ['0'] ∨ Stops (· == '0') n.whole
  fraction : ∀ c ∈ n.fraction, c.isDigit = true
  power : n.power = [] ∨ ∃ sign size, n.power = 'e' :: sign :: size ∧ (sign = '-' ∨ sign = '+') ∧
    size ≠ [] ∧ ∀ c ∈ size, c.isDigit = true

end Numeral

theorem wholeDigits_append {whole tail : List Char} (hwhole : ∀ c ∈ whole, c.isDigit = true)
    (hne : whole ≠ []) (hstart : whole = ['0'] ∨ Stops (· == '0') whole)
    (htail : Stops Char.isDigit tail) : wholeDigits (whole ++ tail) = whole := by
  obtain rfl | hstops := hstart
  · rfl
  · obtain ⟨c, rest, rfl⟩ := List.exists_cons_of_ne_nil hne
    have hc : c ≠ '0' := by simpa using hstops.head
    rw [List.cons_append, wholeDigits]
    · rw [← List.cons_append]
      exact takeWhile_append_of_stops hwhole htail
    · rintro other heq
      exact hc (List.cons.inj heq).1

theorem fractionDigits_append {fraction tail : List Char} (hfraction : ∀ c ∈ fraction, c.isDigit = true)
    (htail : Stops (fun c => c.isDigit || c == '.') tail) :
    fractionDigits (Numeral.pointed fraction ++ tail) = fraction := by
  cases fraction with
  | nil =>
      rw [Numeral.pointed, List.nil_append, fractionDigits]
      rintro rest rfl
      exact absurd htail.head (by decide)
  | cons c rest =>
      rw [Numeral.pointed, List.cons_append, fractionDigits]
      · exact takeWhile_append_of_stops hfraction (htail.mono fun c hc => by simp [hc])
      · exact List.cons_ne_nil _ _

theorem powerPart_append {n : Numeral} (h : n.Valid) {rest : List Char} (hrest : Stops isNumberChar rest) :
    powerPart (n.power ++ rest) = n.power := by
  obtain hpower | ⟨sign, size, hpower, hsign, hne, hsize⟩ := h.power
  · rw [hpower, List.nil_append]
    cases rest with
    | nil => rfl
    | cons c rest =>
        have hmark : ¬((c == 'e' || c == 'E') = true) := by
          intro hmark
          rw [Bool.or_eq_true, beq_iff_eq, beq_iff_eq] at hmark
          obtain rfl | rfl := hmark <;> exact absurd hrest.head (by decide)
        rw [powerPart, if_neg hmark]
  · have htake : (size ++ rest).takeWhile Char.isDigit = size :=
      takeWhile_append_of_stops hsize (hrest.mono fun c hc => by simp [isNumberChar, Char.isAlphanum, hc])
    have hnone : size.isEmpty = false := by simpa using hne
    rw [hpower]
    obtain rfl | rfl := hsign <;> simp [powerPart, htake, hnone]

section Numeral

variable {n : Numeral} (h : n.Valid) {rest : List Char} (hrest : Stops isNumberChar rest)

include h hrest

theorem stops_power : Stops (fun c => c.isDigit || c == '.') (n.power ++ rest) := by
  obtain hpower | ⟨sign, size, hpower, -⟩ := h.power
  · rw [hpower, List.nil_append]
    refine hrest.mono fun c hc => ?_
    rw [Bool.or_eq_true] at hc
    obtain hc | hc := hc <;> simp [isNumberChar, Char.isAlphanum, hc]
  · rw [hpower]
    exact .cons (by decide)

theorem stops_pointed : Stops Char.isDigit (Numeral.pointed n.fraction ++ (n.power ++ rest)) := by
  cases hfraction : n.fraction with
  | nil => exact (stops_power h hrest).mono fun c hc => by simp [hc]
  | cons c digits => exact .cons (by decide)

/-- A number is read from its parts. -/
theorem readNumber_text : readNumber (n.text ++ rest) = n.number.map fun number => (number, rest) := by
  obtain ⟨c, more, hwhole⟩ := List.exists_cons_of_ne_nil h.ne_nil
  have hc : c.isDigit = true := h.whole c (hwhole ▸ List.mem_cons_self)
  have hsign : (n.unsigned ++ rest).head? = some c := by rw [Numeral.unsigned, hwhole]; rfl
  have hnegative : ((n.text ++ rest).head? == some '-') = n.negative := by
    rw [Numeral.text]
    cases n.negative with
    | true => rfl
    | false =>
        rw [if_neg Bool.false_ne_true, hsign]
        simpa using ne_of_isDigit hc (by decide)
  have hbody : (if n.negative = true then (n.text ++ rest).drop 1 else n.text ++ rest) =
      n.whole ++ (Numeral.pointed n.fraction ++ (n.power ++ rest)) := by
    rw [Numeral.text, Numeral.unsigned]
    cases n.negative <;> simp
  have hdigits := wholeDigits_append h.whole h.ne_nil h.start (stops_pointed h hrest)
  have hempty : n.whole.isEmpty = false := by rw [hwhole]; rfl
  have hfraction := fractionDigits_append h.fraction (stops_power h hrest)
  have hbehind : (if n.fraction.isEmpty = true then Numeral.pointed n.fraction ++ (n.power ++ rest)
      else (Numeral.pointed n.fraction ++ (n.power ++ rest)).drop (n.fraction.length + 1)) =
        n.power ++ rest := by
    cases n.fraction with
    | nil => rfl
    | cons c digits => simp [Numeral.pointed]
  have hpower := powerPart_append h hrest
  simp only [readNumber, hnegative, hbody, hdigits, hempty, List.drop_left, hfraction, hbehind, hpower,
    Bool.false_eq_true, if_false]
  rw [Numeral.number]
  split_ifs
  · cases Number.ofDigits n.negative n.whole <;> rfl
  · rfl

theorem readSimple_text : readSimple (n.text ++ rest) = n.number.map fun number => (.number number, rest) := by
  obtain ⟨c, more, hwhole⟩ := List.exists_cons_of_ne_nil h.ne_nil
  have hc : c.isDigit = true := h.whole c (hwhole ▸ List.mem_cons_self)
  have hne (other : Char) (hother : other.isDigit = false) : other ≠ c := (ne_of_isDigit hc hother).symm
  have hwords : ∀ word ∈ ["null", "true", "false", "NaN", "Infinity", "-Infinity"],
      dropWord? word (n.text ++ rest) = none := by
    have hunsigned : n.unsigned ++ rest = c :: (more ++ (Numeral.pointed n.fraction ++ n.power) ++ rest) := by
      rw [Numeral.unsigned, hwhole]
      rfl
    rw [Numeral.text]
    cases n.negative with
    | true =>
        rw [if_pos rfl, List.cons_append, hunsigned]
        simp [dropWord?, hne 'I' rfl]
    | false =>
        rw [if_neg Bool.false_ne_true, hunsigned]
        simp [dropWord?, hne 'n' rfl, hne 't' rfl, hne 'f' rfl, hne 'N' rfl, hne 'I' rfl, hne '-' rfl]
  simp only [List.forall_mem_cons] at hwords
  obtain ⟨hnull, htrue, hfalse, hnan, hinfinite, hnegative, -⟩ := hwords
  simp only [readSimple, hnull, htrue, hfalse, hnan, hinfinite, hnegative]
  rw [readNumber_text h hrest]
  cases n.number <;> rfl

end Numeral

section Decimal

open Binary64

/-- The ratio that the digits and the exponent of a number spell. -/
def Numeral.ratio (n : Numeral) : ℚ :=
  digitsValue (n.whole ++ n.fraction) * 10 ^ n.exponent

/-- A number is written like a decimal and spells it. -/
structure Numeral.Shows (n : Numeral) (d : Decimal) : Prop where
  valid : n.Valid
  text : n.unsigned = d.text
  marked : (n.fraction.isEmpty && n.power.isEmpty) = false
  ratio : n.ratio = d.value

variable {d : Decimal} (h : d.Normal) (negative : Bool)

include h

theorem shows_fixed {whole fraction : List Char} {before behind : Nat}
    (htext : d.text = whole ++ '.' :: fraction) (hne : whole ≠ []) (hfraction : fraction ≠ [])
    (hstart : whole = ['0'] ∨ Stops (· == '0') whole)
    (hdigits : whole ++ fraction = List.replicate before '0' ++ (d.digits ++ List.replicate behind '0'))
    (hpoint : d.point = (whole.length : Int) - before) :
    Numeral.Shows ⟨negative, whole, fraction, []⟩ d := by
  have hall : ∀ c ∈ whole ++ fraction, c.isDigit = true := by
    rw [hdigits]
    simp only [List.forall_mem_append]
    exact ⟨fun c hc => isDigit_of_mem_replicate hc, h.digits, fun c hc => isDigit_of_mem_replicate hc⟩
  obtain ⟨c, rest, rfl⟩ := List.exists_cons_of_ne_nil hfraction
  refine ⟨⟨fun c hc => hall c (List.mem_append_left _ hc), hne, hstart,
    fun c hc => hall c (List.mem_append_right _ hc), .inl rfl⟩, ?_, rfl, ?_⟩
  · rw [htext, Numeral.unsigned]
    simp [Numeral.pointed]
  · have hlength := congrArg List.length hdigits
    simp only [List.length_append, List.length_replicate] at hlength
    have hread : digitsValue (whole ++ c :: rest) = 10 ^ behind * Nat.ofDigitChars 10 d.digits 0 := by
      rw [digitsValue_eq hall, hdigits, Nat.ofDigitChars_append, Nat.ofDigitChars_replicate_zero,
        Nat.mul_zero, Nat.ofDigitChars_append, Nat.ofDigitChars_replicate_zero]
    have hpower : d.point - d.digits.length = (behind : Int) + (0 - ((c :: rest).length : Int)) := by
      omega
    have hexponent : Numeral.exponent ⟨negative, whole, c :: rest, []⟩ = 0 - ((c :: rest).length : Int) := rfl
    rw [Numeral.ratio, hexponent, hread, Decimal.value, hpower, zpow_add₀ (by norm_num), zpow_natCast]
    push_cast
    ring

theorem exists_shows_fixed (hfixed : -4 < d.point ∧ d.point ≤ 16) :
    ∃ n : Numeral, n.negative = negative ∧ n.Shows d := by
  obtain ⟨first, rest, hdigits⟩ := List.exists_cons_of_ne_nil h.ne_nil
  have hhead := h.head
  rw [hdigits] at hhead
  have htext := Decimal.text.eq_1 d
  dsimp only at htext
  rw [if_pos hfixed] at htext
  split_ifs at htext with hbefore hlong
  · refine ⟨_, rfl, @shows_fixed d h negative ['0'] _ ((-d.point).toNat + 1) 0 htext (by simp) ?_
      (.inl rfl) ?_ ?_⟩
    · simp [hdigits]
    · simp [List.replicate_succ]
    · rw [List.length_singleton]
      omega
  · refine ⟨_, rfl, @shows_fixed d h negative _ ['0'] 0 ((d.point - d.digits.length).toNat + 1) htext ?_
      (by simp) ?_ ?_ ?_⟩
    · simp [hdigits]
    · rw [hdigits]
      exact .inr (.cons hhead.head)
    · simp [List.replicate_succ']
    · rw [List.length_append, List.length_replicate]
      omega
  · have hcut : d.point.toNat = (d.point.toNat - 1) + 1 := by omega
    refine ⟨_, rfl, @shows_fixed d h negative _ _ 0 0 htext ?_ ?_ ?_ ?_ ?_⟩
    · rw [hdigits, hcut]
      simp
    · rw [Ne, List.drop_eq_nil_iff]
      omega
    · rw [hdigits, hcut, List.take_succ_cons]
      exact .inr (.cons hhead.head)
    · simp
    · rw [List.length_take]
      omega

theorem exists_shows_scaled (hscaled : ¬(-4 < d.point ∧ d.point ≤ 16)) :
    ∃ n : Numeral, n.negative = negative ∧ n.Shows d := by
  obtain ⟨first, rest, hdigits⟩ := List.exists_cons_of_ne_nil h.ne_nil
  have hhead := h.head
  have hchars := h.digits
  rw [hdigits] at hhead hchars
  obtain ⟨sign, size, htext, hsign, hne, hsize, hshown⟩ : ∃ sign size,
      d.text = first :: (Numeral.pointed rest ++ 'e' :: sign :: size) ∧ (sign = '-' ∨ sign = '+') ∧
        size ≠ [] ∧ (∀ c ∈ size, c.isDigit = true) ∧
          Decimal.shownExponent ('e' :: sign :: size) = d.point - 1 := by
    refine ⟨_, _, ?_, ?_, ?_, ?_, Decimal.shownExponent_size (d.point - 1)⟩
    · rw [Decimal.text]
      dsimp only
      rw [if_neg hscaled, hdigits]
      cases rest <;> rfl
    · split_ifs
      · exact .inl rfl
      · exact .inr rfl
    · simp [Nat.toDigits_ne_nil]
    · exact List.forall_mem_append.mpr ⟨fun c hc => isDigit_of_mem_replicate hc,
        fun c hc => Nat.isDigit_of_mem_toDigits (by decide) (by decide) hc⟩
  rw [List.forall_mem_cons] at hchars
  refine ⟨⟨negative, [first], rest, 'e' :: sign :: size⟩, rfl, ⟨?_, by simp, ?_, hchars.2, ?_⟩, ?_, ?_, ?_⟩
  · simpa using hchars.1
  · exact .inr (.cons hhead.head)
  · exact .inr ⟨sign, size, rfl, hsign, hne, hsize⟩
  · rw [htext]
    simp [Numeral.unsigned]
  · simp
  · have hexponent : Numeral.exponent ⟨negative, [first], rest, 'e' :: sign :: size⟩ =
        d.point - d.digits.length := by
      rw [Numeral.exponent, Number.readExponent_eq hsign hne hsize, hshown, hdigits]
      simp only [Option.getD_some, List.length_cons]
      omega
    have hread : digitsValue ([first] ++ rest) = Nat.ofDigitChars 10 d.digits 0 := by
      rw [hdigits, digitsValue_eq (by simpa using hchars)]
      rfl
    rw [Numeral.ratio, hexponent, hread, Decimal.value]

/-- The text of a decimal has parts that spell it. -/
theorem exists_shows : ∃ n : Numeral, n.negative = negative ∧ n.Shows d := by
  by_cases hfixed : -4 < d.point ∧ d.point ≤ 16
  · exact exists_shows_fixed h negative hfixed
  · exact exists_shows_scaled h negative hfixed

end Decimal

/-- The text of a finite number has parts, and the number is read from them. -/
theorem exists_numeral_finite {sign : Bool} {significand : Nat} {exponent : Int}
    (h : (Binary64.finite sign significand exponent).Canonical) :
    ∃ n : Numeral, n.Valid ∧ numberLine (.float (.finite sign significand exponent)) = n.text ∧
      n.number = .ok (.float (.finite sign significand exponent)) := by
  have hline : numberLine (.float (.finite sign significand exponent)) =
      if sign then '-' :: Binary64.unsignedText significand exponent
      else Binary64.unsignedText significand exponent :=
    Binary64.text_finite sign significand exponent
  by_cases hzero : significand = 0
  · obtain rfl := hzero
    have hleast : exponent = Binary64.minExponent := h.2.2.2.resolve_left (by decide)
    refine ⟨⟨sign, ['0'], ['0'], []⟩, ⟨by simp, by simp, .inl rfl, by simp, .inl rfl⟩, ?_, ?_⟩
    · rw [hline]
      rfl
    · rw [hleast]
      rfl
  · obtain ⟨hnormal, hwithin⟩ := Binary64.shortest_spec (h.ordinary hzero)
    obtain ⟨n, hsign, hshows⟩ := exists_shows hnormal sign
    refine ⟨n, hshows.valid, ?_, ?_⟩
    · rw [hline, Numeral.text, hsign, hshows.text, Binary64.unsignedText, if_neg hzero]
    · rw [Numeral.number, hshows.marked, if_neg Bool.false_ne_true, hsign]
      rw [← hshows.ratio, Numeral.ratio] at hwithin
      rw [Binary64.ofDecimal_of_within (h.ordinary hzero) h.2.2.1 hwithin]

theorem readSimple_finite {sign : Bool} {significand : Nat} {exponent : Int}
    (h : (Binary64.finite sign significand exponent).Canonical) {rest : List Char}
    (hrest : Stops isNumberChar rest) :
    readSimple (numberLine (.float (.finite sign significand exponent)) ++ rest) =
      .ok (.number (.float (.finite sign significand exponent)), rest) := by
  obtain ⟨n, hvalid, htext, hnumber⟩ := exists_numeral_finite h
  rw [htext, readSimple_text hvalid hrest, hnumber]
  rfl

/-- The parts of a whole number. -/
def intNumeral (value : Int) : Numeral :=
  ⟨decide (value < 0), Nat.toDigits 10 value.natAbs, [], []⟩

theorem isDigit_of_mem_natAbs {value : Int} {c : Char} (h : c ∈ Nat.toDigits 10 value.natAbs) :
    c.isDigit = true :=
  Nat.isDigit_of_mem_toDigits (by decide) (by decide) h

theorem valid_intNumeral (value : Int) : (intNumeral value).Valid := by
  refine ⟨fun c => isDigit_of_mem_natAbs, Nat.toDigits_ne_nil, ?_, by simp [intNumeral], .inl rfl⟩
  by_cases hzero : value.natAbs = 0
  · rw [intNumeral, hzero]
    exact .inl rfl
  · exact .inr (Binary64.stops_toDigits (Nat.pos_of_ne_zero hzero))

theorem numberLine_int (value : Int) : numberLine (.int value) = (intNumeral value).text := by
  have hline : numberLine (.int value) = (toString value).toList := rfl
  rw [hline, toString_int, Numeral.text, Numeral.unsigned, intNumeral]
  by_cases hnegative : value < 0
  · have hsize : (-value).toNat = value.natAbs := by omega
    simp [hnegative, Numeral.pointed, hsize, not_le.mpr hnegative]
  · have hsize : value.toNat = value.natAbs := by omega
    simp [hnegative, Numeral.pointed, hsize, not_lt.mp hnegative]

theorem readSimple_int {value : Int} (h : (Number.int value).isWritable = true) {rest : List Char}
    (hrest : Stops isNumberChar rest) :
    readSimple (numberLine (.int value) ++ rest) = .ok (.number (.int value), rest) := by
  have hlength : (Nat.toDigits 10 value.natAbs).length ≤ Number.maxDigits := by
    rw [Number.isWritable, Bool.or_eq_true, decide_eq_true_eq, decide_eq_true_eq] at h
    have hpower : twoTo 64 ≤ tenTo Number.maxDigits := calc
      twoTo 64 ≤ tenTo 20 := by decide
      _ ≤ tenTo Number.maxDigits := tenTo_le (by decide)
    exact length_toDigits_le (by decide) (h.elim (fun hsmall => hsmall.trans_le hpower) id)
  have hnumber : (intNumeral value).number = .ok (.int value) := by
    have hread : Number.ofDigits (decide (value < 0)) (Nat.toDigits 10 value.natAbs) = .ok value := by
      rw [Number.ofDigits, if_neg (not_lt.mpr hlength), digitsValue_eq fun c => isDigit_of_mem_natAbs,
        Nat.ofDigitChars_ten_toDigits]
      by_cases hnegative : value < 0
      · simp only [hnegative, decide_true, if_true]
        congr 1
        omega
      · simp only [hnegative, decide_false, Bool.false_eq_true, if_false]
        congr 1
        omega
    rw [Numeral.number, intNumeral]
    simp only [List.isEmpty_nil, Bool.and_self, if_true, hread]
  rw [numberLine_int, readSimple_text (valid_intNumeral value) hrest, hnumber]
  rfl

/-- A number is read back from its text. -/
theorem readSimple_numberLine {number : Number} (hwritable : number.isWritable = true)
    (h : number.Canonical) {rest : List Char} (hrest : Stops isNumberChar rest) :
    readSimple (numberLine number ++ rest) = .ok (.number number, rest) := by
  match number with
  | .int _ => exact readSimple_int hwritable hrest
  | .float .nan => rfl
  | .float (.infinite true) => rfl
  | .float (.infinite false) => rfl
  | .float (.finite ..) => exact readSimple_finite h hrest

end Json

end DocCompiler
