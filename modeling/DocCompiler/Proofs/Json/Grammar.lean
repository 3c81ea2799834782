import DocCompiler.Proofs.Data.Numbers
import DocCompiler.Proofs.Json.Roundtrip

/-!
The grammar of JSON. What is written for a value whose numbers are finite is in the grammar, in every
layout, and a document is read back from its text.
-/

namespace DocCompiler

/-- A number that JSON has a form for. -/
structure Number.Standard (number : Number) : Prop where
  finite : number.IsFinite
  canonical : number.Canonical

instance : DecidablePred Number.Standard := fun number =>
  decidable_of_iff (number.IsFinite ∧ number.Canonical) ⟨fun h => ⟨h.1, h.2⟩, fun h => ⟨h.finite, h.canonical⟩⟩

theorem Number.standard_int (value : Int) : (Number.int value).Standard :=
  ⟨trivial, trivial⟩

theorem Number.standard_finite {negative : Bool} {significand : Nat} {exponent : Int} :
    (Number.float (.finite negative significand exponent)).Standard ↔
      (Binary64.finite negative significand exponent).Canonical :=
  ⟨Standard.canonical, fun h => ⟨rfl, h⟩⟩

namespace Json

open Text

namespace Grammar

/-- A text of blanks. -/
def IsBlank (text : List Char) : Prop :=
  ∀ c ∈ text, isSpace c = true

/-- A text of digits, at least one. -/
structure IsDigits (text : List Char) : Prop where
  ne_nil : text ≠ []
  digits : ∀ c ∈ text, c.isDigit = true

/-- A digit in base 16, in either case. -/
def isHexDigit (c : Char) : Bool :=
  c.isDigit || "abcdefABCDEF".toList.contains c

/-- What may stand in quotes: characters that are no controls, no quotes and no backslashes, escapes of one
letter, and escapes of four digits in base 16. -/
inductive IsBody : List Char → Prop
  | nil : IsBody []
  | plain {c : Char} {rest : List Char} (hcontrol : 32 ≤ c.toNat) (hquote : c ≠ '"') (hslash : c ≠ '\\')
      (hrest : IsBody rest) : IsBody (c :: rest)
  | letter {c : Char} {rest : List Char} (hc : c ∈ ['"', '\\', '/', 'b', 'f', 'n', 'r', 't'])
      (hrest : IsBody rest) : IsBody ('\\' :: c :: rest)
  | digits {code rest : List Char} (hlength : code.length = 4) (hcode : ∀ c ∈ code, isHexDigit c = true)
      (hrest : IsBody rest) : IsBody ('\\' :: 'u' :: (code ++ rest))

/-- A string. -/
inductive IsString : List Char → Prop
  | quoted {body : List Char} (hbody : IsBody body) : IsString ('"' :: (body ++ ['"']))

/-- The digits of a number in front of its point: no zero stands in front of other digits. -/
inductive IsWhole : List Char → Prop
  | zero : IsWhole ['0']
  | digits {c : Char} {rest : List Char} (hc : c.isDigit = true) (hne : c ≠ '0')
      (hrest : ∀ d ∈ rest, d.isDigit = true) : IsWhole (c :: rest)

/-- The fraction of a number. -/
inductive IsFraction : List Char → Prop
  | none : IsFraction []
  | digits {digits : List Char} (h : IsDigits digits) : IsFraction ('.' :: digits)

/-- The exponent of a number. -/
inductive IsExponent : List Char → Prop
  | none : IsExponent []
  | digits {mark : Char} {sign digits : List Char} (hmark : mark = 'e' ∨ mark = 'E')
      (hsign : sign ∈ [[], ['-'], ['+']]) (h : IsDigits digits) : IsExponent (mark :: (sign ++ digits))

/-- A number. -/
inductive IsNumber : List Char → Prop
  | parts {sign whole fraction exponent : List Char} (hsign : sign ∈ [[], ['-']]) (hwhole : IsWhole whole)
      (hfraction : IsFraction fraction) (hexponent : IsExponent exponent) :
      IsNumber (sign ++ (whole ++ (fraction ++ exponent)))

/-- Texts of a kind with commas between them, at least one. -/
inductive IsSequence (isMember : List Char → Prop) : List Char → Prop
  | single {text : List Char} (h : isMember text) : IsSequence isMember text
  | more {text rest : List Char} (h : isMember text) (hrest : IsSequence isMember rest) :
      IsSequence isMember (text ++ ',' :: rest)

mutual

/-- A value. -/
inductive IsValue : List Char → Prop
  | null : IsValue "null".toList
  | true : IsValue "true".toList
  | false : IsValue "false".toList
  | number {text : List Char} (h : IsNumber text) : IsValue text
  | string {text : List Char} (h : IsString text) : IsValue text
  | emptyArray {blank : List Char} (h : IsBlank blank) : IsValue ('[' :: (blank ++ [']']))
  | array {text : List Char} (h : IsSequence IsElement text) : IsValue ('[' :: (text ++ [']']))
  | emptyObject {blank : List Char} (h : IsBlank blank) : IsValue ('\x7b' :: (blank ++ ['\x7d']))
  | object {text : List Char} (h : IsSequence IsMember text) : IsValue ('\x7b' :: (text ++ ['\x7d']))

/-- A value with blanks around it. This is what a whole text is. -/
inductive IsElement : List Char → Prop
  | padded {before text behind : List Char} (hbefore : IsBlank before) (h : IsValue text)
      (hbehind : IsBlank behind) : IsElement (before ++ (text ++ behind))

/-- A key with its value. -/
inductive IsMember : List Char → Prop
  | padded {before key between text : List Char} (hbefore : IsBlank before) (hkey : IsString key)
      (hbetween : IsBlank between) (h : IsElement text) :
      IsMember (before ++ (key ++ (between ++ ':' :: text)))

end

theorem isBlank_nil : IsBlank [] := by
  simp [IsBlank]

theorem IsValue.element {text : List Char} (h : IsValue text) : IsElement text := by
  simpa using IsElement.padded isBlank_nil h isBlank_nil

section Strings

theorem isHexDigit_digitChar {digit : Nat} (h : digit < 16) : isHexDigit digit.digitChar = true := by
  interval_cases digit <;> decide

theorem isHexDigit_of_mem_toDigits {n : Nat} {c : Char} (h : c ∈ Nat.toDigits 16 n) : isHexDigit c = true := by
  induction n using Nat.strongRecOn with
  | ind n ih =>
      rw [Nat.toDigits_eq_if (by decide)] at h
      split_ifs at h with hsmall
      · rw [List.mem_singleton.mp h]
        exact isHexDigit_digitChar hsmall
      · obtain h | h := List.mem_append.mp h
        · exact ih (n / 16) (by omega) h
        · rw [List.mem_singleton.mp h]
          exact isHexDigit_digitChar (Nat.mod_lt n (by decide))

theorem isHexDigit_of_mem_hexPadded {width code : Nat} {c : Char} (h : c ∈ hexPadded width code) :
    isHexDigit c = true := by
  obtain h | h := List.mem_append.mp h
  · rw [List.eq_of_mem_replicate h]
    decide
  · exact isHexDigit_of_mem_toDigits h

theorem isHexDigit_plain {c : Char} (h : isHexDigit c = true) : 32 ≤ c.toNat ∧ c ≠ '"' ∧ c ≠ '\\' := by
  have hnot (other : Char) (hother : isHexDigit other = false) : c ≠ other := by
    rintro rfl
    exact absurd (h.symm.trans hother) (by decide)
  refine ⟨?_, hnot _ (by decide), hnot _ (by decide)⟩
  rw [isHexDigit, Bool.or_eq_true] at h
  obtain h | h := h
  · simp only [Char.isDigit, Bool.and_eq_true, decide_eq_true_eq] at h
    exact le_trans (by decide : 32 ≤ 48) (UInt32.le_iff_toNat_le.mp h.1)
  · have hletters : ("abcdefABCDEF".toList.all fun letter => decide (32 ≤ letter.toNat)) = true := by decide
    simpa using List.all_eq_true.mp hletters c (List.contains_iff_mem.mp h)

variable {rest : List Char} (hrest : IsBody rest)

include hrest

theorem IsBody.append_digits {digits : List Char} (h : ∀ c ∈ digits, isHexDigit c = true) :
    IsBody (digits ++ rest) := by
  induction digits with
  | nil => exact hrest
  | cons c digits ih =>
      rw [List.forall_mem_cons] at h
      obtain ⟨hcontrol, hquote, hslash⟩ := isHexDigit_plain h.1
      exact .plain hcontrol hquote hslash (ih h.2)

/-- An escape is in the grammar. Digits of a code behind the fourth one would stand for themselves. -/
theorem isBody_escapeUnit (code : Nat) : IsBody (escapeUnit code ++ rest) := by
  have hhex : ∀ c ∈ hexPadded 4 code, isHexDigit c = true := fun c => isHexDigit_of_mem_hexPadded
  have hlength : 4 ≤ (hexPadded 4 code).length := by
    simp only [hexPadded, List.length_append, List.length_replicate]
    omega
  have hsplit : escapeUnit code ++ rest =
      '\\' :: 'u' :: ((hexPadded 4 code).take 4 ++ ((hexPadded 4 code).drop 4 ++ rest)) := by
    rw [← List.append_assoc, List.take_append_drop]
    rfl
  rw [hsplit]
  refine .digits (by rw [List.length_take]; omega) (fun c hc => hhex c (List.mem_of_mem_take hc)) ?_
  exact hrest.append_digits fun c hc => hhex c (List.mem_of_mem_drop hc)

theorem isBody_escapeChar (ascii : Bool) (c : Char) : IsBody (escapeChar ascii c ++ rest) := by
  rw [escapeChar]
  split_ifs with hquote hnewline hreturn htab hback hfeed hcontrol hbeyond hplane
  · refine .letter ?_ hrest
    rw [Bool.or_eq_true, beq_iff_eq, beq_iff_eq] at hquote
    obtain rfl | rfl := hquote <;> decide
  iterate 5 exact .letter (by decide) hrest
  · exact isBody_escapeUnit hrest _
  · exact isBody_escapeUnit hrest _
  · rw [List.append_assoc]
    exact isBody_escapeUnit (isBody_escapeUnit hrest _) _
  · rw [Bool.or_eq_true, beq_iff_eq, beq_iff_eq, not_or] at hquote
    exact .plain (Nat.le_of_not_lt hcontrol) hquote.1 hquote.2 hrest

theorem isBody_escapeCode (ascii : Bool) (code : Nat) : IsBody (escapeCode ascii code ++ rest) := by
  rw [escapeCode]
  split_ifs
  · exact isBody_escapeChar hrest ascii _
  · exact isBody_escapeUnit hrest code

omit hrest

/-- Code points between quotes are a string. -/
theorem isString_writeCodes (ascii : Bool) (points : List Nat) : IsString (writeCodes ascii points).toList := by
  rw [toList_writeCodes]
  refine .quoted ?_
  induction points with
  | nil => exact .nil
  | cons code points ih => exact isBody_escapeCode ih ascii code

theorem isString_writeString (ascii : Bool) (text : String) : IsString (writeString ascii text).toList := by
  rw [writeString_eq]
  exact isString_writeCodes ascii _

theorem isString_writeKey {ascii : Bool} {key : Datum} {name : String} (h : writeKey ascii key = .ok name) :
    IsString name.toList := by
  cases key with
  | text value =>
      cases h
      exact isString_writeString ascii value
  | codes points =>
      cases h
      exact isString_writeCodes ascii points
  | number number =>
      obtain ⟨text, -, h⟩ := Result.bind_eq_ok_iff.mp h
      cases h
      exact isString_writeString ascii text
  | bool value =>
      cases h
      exact isString_writeString ascii _
  | null =>
      cases h
      exact isString_writeString ascii _
  | _ => cases h

end Strings

section Numbers

theorem isFraction_pointed {digits : List Char} (h : ∀ c ∈ digits, c.isDigit = true) :
    IsFraction (Numeral.pointed digits) := by
  cases digits with
  | nil => exact .none
  | cons c rest => exact .digits ⟨List.cons_ne_nil _ _, h⟩

theorem isWhole_of_stops {digits : List Char} (h : ∀ c ∈ digits, c.isDigit = true) (hne : digits ≠ [])
    (hstart : digits = ['0'] ∨ Stops (· == '0') digits) : IsWhole digits := by
  obtain rfl | hstops := hstart
  · exact .zero
  · obtain ⟨c, rest, rfl⟩ := List.exists_cons_of_ne_nil hne
    rw [List.forall_mem_cons] at h
    exact .digits h.1 (by simpa using hstops.head) h.2

/-- The parts of a number, one behind the other, are a number. -/
theorem isNumber_text {n : Numeral} (h : n.Valid) : IsNumber n.text := by
  have hwhole := isWhole_of_stops h.whole h.ne_nil h.start
  have hfraction := isFraction_pointed h.fraction
  have hexponent : IsExponent n.power := by
    obtain hpower | ⟨sign, size, hpower, hsign, hne, hsize⟩ := h.power
    · rw [hpower]
      exact .none
    · rw [hpower]
      have hmem : [sign] ∈ [[], ['-'], ['+']] := by
        obtain rfl | rfl := hsign <;> decide
      exact .digits (.inl rfl) hmem ⟨hne, hsize⟩
  rw [Numeral.text]
  split_ifs
  · exact @IsNumber.parts ['-'] _ _ _ (by decide) hwhole hfraction hexponent
  · exact @IsNumber.parts [] _ _ _ (by decide) hwhole hfraction hexponent

/-- A number that has a value is written as a number. -/
theorem isNumber_numberLine {number : Number} (h : number.Standard) : IsNumber (numberLine number) := by
  obtain ⟨hfinite, hcanonical⟩ := h
  match number, hfinite with
  | .int value, _ =>
      rw [numberLine_int]
      exact isNumber_text (valid_intNumeral value)
  | .float (.finite sign significand exponent), _ =>
      obtain ⟨n, hvalid, htext, -⟩ := exists_numeral_finite hcanonical
      rw [htext]
      exact isNumber_text hvalid

theorem isNumber_writeNumber {number : Number} {text : String} (h : number.Standard)
    (htext : writeNumber number = .ok text) : IsNumber text.toList := by
  have hwritable : number.isWritable = true := by
    match number, htext with
    | .float _, _ => rfl
    | .int value, htext =>
        rw [writeNumber] at htext
        · split_ifs at htext with hwritable
          exact hwritable
        · rintro ⟨⟩
        · rintro _ ⟨⟩
  rw [writeNumber_eq hwritable] at htext
  cases htext
  rw [String.toList_ofList]
  exact isNumber_numberLine h

end Numbers

section Members

/-- A text that is of a kind with blanks around it. -/
def Fits (isMember : List Char → Prop) (text : List Char) : Prop :=
  ∀ before behind, IsBlank before → IsBlank behind → isMember (before ++ (text ++ behind))

theorem IsValue.fits {text : List Char} (h : IsValue text) : Fits IsElement text :=
  fun _ _ hbefore hbehind => .padded hbefore h hbehind

theorem fits_entry {key text : List Char} (hkey : IsString key) (h : IsValue text) :
    Fits IsMember (key ++ ':' :: ' ' :: text) := by
  intro before behind hbefore hbehind
  have hspace : IsBlank [' '] := by simp [IsBlank, isSpace]
  simpa using IsMember.padded hbefore hkey isBlank_nil (.padded hspace h hbehind)

variable {isMember : List Char → Prop} {between before behind : List Char}

/-- Members with commas and blanks between them are a sequence. -/
theorem isSequence_listed (hbetween : IsBlank between) (hbehind : IsBlank behind) {members : List (List Char)}
    (hne : members ≠ []) (h : ∀ member ∈ members, Fits isMember member) (hbefore : IsBlank before) :
    IsSequence isMember (before ++ (listed between members ++ behind)) := by
  obtain ⟨member, members, rfl⟩ := List.exists_cons_of_ne_nil hne
  clear hne
  induction members generalizing member before with
  | nil =>
      rw [listed_singleton]
      exact .single (h member List.mem_cons_self before behind hbefore hbehind)
  | cons other members ih =>
      obtain ⟨hmember, hmore⟩ := List.forall_mem_cons.mp h
      have hrest := ih hbetween other hmore
      rw [listed_cons_cons]
      simpa using IsSequence.more (hmember before [] hbefore isBlank_nil) hrest

variable (style : Style) (level : Nat) {members : List String}

/-- What stands between brackets is a sequence. -/
theorem exists_sequence (opening closing : String) (hne : members ≠ [])
    (h : ∀ member ∈ members, Fits isMember member.toList) :
    ∃ text, IsSequence isMember text ∧
      (style.enclose level opening closing members).toList = opening.toList ++ (text ++ closing.toList) := by
  obtain ⟨before, between, behind, hbefore, hbetween, hbehind, htext⟩ :=
    exists_enclose style level opening closing hne
  refine ⟨_, isSequence_listed hbetween hbehind (by simpa using hne) (List.forall_mem_map.mpr h) hbefore, ?_⟩
  rw [htext]
  simp

theorem isValue_list (h : ∀ member ∈ members, IsValue member.toList) :
    IsValue (style.enclose level "[" "]" members).toList := by
  by_cases hne : members = []
  · rw [hne, toList_enclose_nil]
    exact .emptyArray isBlank_nil
  · obtain ⟨text, hsequence, htext⟩ :=
      exists_sequence style level "[" "]" hne fun member hmember => (h member hmember).fits
    rw [htext]
    exact .array hsequence

theorem isValue_map (h : ∀ member ∈ members, Fits IsMember member.toList) :
    IsValue (style.enclose level "\x7b" "\x7d" members).toList := by
  by_cases hne : members = []
  · rw [hne, toList_enclose_nil]
    exact .emptyObject isBlank_nil
  · obtain ⟨text, hsequence, htext⟩ := exists_sequence style level "\x7b" "\x7d" hne h
    rw [htext]
    exact .object hsequence

end Members

section Values

variable {style : Style}

theorem mem_of_arrange {entries : List (Datum × String)} {members : List String}
    (h : style.arrange entries = .ok members) : ∀ member ∈ members, ∃ entry ∈ entries, entry.2 = member := by
  rw [Style.arrange] at h
  split_ifs at h
  · cases h
    simp
  · cases h
    simp

/-- A value that JSON has no form for is written as a string, if at all. -/
theorem isValue_lenient {value : Datum} {text : String}
    (h : (if style.lenient then .ok (writeString style.ascii value.display)
      else .error (.unsupportedValue value.kindName) : Except WriteError String) = .ok text) :
    IsValue text.toList := by
  split_ifs at h
  cases h
  exact .string (isString_writeString _ _)

mutual

/-- What is written for a value is a value of the grammar. -/
theorem isValue_writeAt : (value : Datum) → value.Numbers Number.Standard → (level : Nat) → (text : String) →
    writeAt style level value = .ok text → IsValue text.toList
  | .null, _, _, _, h => by
      cases h
      exact .null
  | .bool value, _, _, _, h => by
      cases h
      cases value with
      | true => exact .true
      | false => exact .false
  | .number _, hnumbers, _, _, h => .number (isNumber_writeNumber hnumbers h)
  | .text value, _, _, _, h => by
      cases h
      exact .string (isString_writeString _ value)
  | .codes points, _, _, _, h => by
      cases h
      exact .string (isString_writeCodes _ points)
  | .list items, hnumbers, level, _, h => by
      obtain ⟨members, hmembers, h⟩ := Result.bind_eq_ok_iff.mp h
      cases h
      exact isValue_list style level (isValue_writeItems items hnumbers (level + 1) members hmembers)
  | .map entries, hnumbers, level, _, h => by
      obtain ⟨written, hwritten, h⟩ := Result.bind_eq_ok_iff.mp h
      obtain ⟨members, hmembers, h⟩ := Result.bind_eq_ok_iff.mp h
      cases h
      refine isValue_map style level fun member hmember => ?_
      obtain ⟨entry, hentry, rfl⟩ := mem_of_arrange hmembers member hmember
      exact fits_writeEntries entries hnumbers (level + 1) written hwritten entry hentry
  | .pair first second, hnumbers, level, _, h => by
      obtain ⟨one, hone, h⟩ := Result.bind_eq_ok_iff.mp h
      obtain ⟨other, hother, h⟩ := Result.bind_eq_ok_iff.mp h
      cases h
      have hfirst := isValue_writeAt first hnumbers.1 (level + 1) one hone
      have hsecond := isValue_writeAt second hnumbers.2 (level + 1) other hother
      exact isValue_list style level (by simpa using And.intro hfirst hsecond)
  | .date _, _, _, _, h | .moment _, _, _, _, h | .bytes _, _, _, _, h | .set _, _, _, _, h
  | .unresolved _, _, _, _, h | .again _, _, _, _, h => isValue_lenient h

theorem isValue_writeItems : (items : List Datum) → Datum.AllNumbers Number.Standard items → (level : Nat) →
    (members : List String) → writeItems style level items = .ok members →
      ∀ member ∈ members, IsValue member.toList
  | [], _, _, _, h => by
      cases h
      simp
  | item :: rest, hnumbers, level, _, h => by
      obtain ⟨member, hmember, h⟩ := Result.bind_eq_ok_iff.mp h
      obtain ⟨members, hmembers, h⟩ := Result.bind_eq_ok_iff.mp h
      cases h
      exact List.forall_mem_cons.mpr ⟨isValue_writeAt item hnumbers.1 level member hmember,
        isValue_writeItems rest hnumbers.2 level members hmembers⟩

theorem fits_writeEntries : (entries : List (Datum × Datum)) → Datum.EntryNumbers Number.Standard entries →
    (level : Nat) → (members : List (Datum × String)) → writeEntries style level entries = .ok members →
      ∀ member ∈ members, Fits IsMember member.2.toList
  | [], _, _, _, h => by
      cases h
      simp
  | (key, item) :: rest, hnumbers, level, _, h => by
      obtain ⟨name, hname, h⟩ := Result.bind_eq_ok_iff.mp h
      obtain ⟨text, htext, h⟩ := Result.bind_eq_ok_iff.mp h
      obtain ⟨members, hmembers, h⟩ := Result.bind_eq_ok_iff.mp h
      cases h
      have hvalue := isValue_writeAt item hnumbers.2.1 level text htext
      refine List.forall_mem_cons.mpr ⟨?_, fits_writeEntries rest hnumbers.2.2 level members hmembers⟩
      simpa using fits_entry (isString_writeKey hname) hvalue

end

/-- What is written for a value whose numbers JSON has forms for is a text of the grammar. -/
theorem isElement_write {value : Datum} (h : value.Numbers Number.Standard) {text : String}
    (htext : write style value = .ok text) : IsElement text.toList :=
  (isValue_writeAt value h 0 text htext).element

theorem IsElement.append_blank {text blank : List Char} (h : IsElement text) (hblank : IsBlank blank) :
    IsElement (text ++ blank) := by
  obtain ⟨hbefore, hvalue, hbehind⟩ := h
  simpa using IsElement.padded hbefore hvalue (List.forall_mem_append.mpr ⟨hbehind, hblank⟩)

end Values

end Grammar

end Json

end DocCompiler
