import DocCompiler.Proofs.Data.Result
import DocCompiler.Proofs.Data.Sorted
import DocCompiler.Proofs.Json.Escape
import DocCompiler.Proofs.Text.Line

/-!
JSON on one line with sorted keys. Every plain value has such a text, and different values, up to the
order of entries, have different texts.
-/

namespace DocCompiler.Json

open Text

/-- A text in quotes. -/
def quotedLine (chars : List Char) : List Char :=
  '"' :: (chars.flatMap (escapeChar true) ++ ['"'])

/-- A number as it is written. -/
def numberLine : Number → List Char
  | .float .nan => "NaN".toList
  | .float (.infinite negative) => (if negative then "-Infinity" else "Infinity").toList
  | number => number.text.toList

/-- Texts with commas between them. -/
def joined (members : List (List Char)) : List Char :=
  [',', ' '].intercalate members

mutual

/-- A value on one line, with its entries as they come. -/
def line : Datum → List Char
  | .null => "null".toList
  | .bool value => (if value then "true" else "false").toList
  | .number number => numberLine number
  | .text text => quotedLine text.toList
  | .list items => '[' :: (joined (lineItems items) ++ [']'])
  | .map entries => '\x7b' :: (joined (lineEntries entries) ++ ['\x7d'])
  | _ => []

/-- The lines of items. -/
def lineItems : List Datum → List (List Char)
  | [] => []
  | item :: rest => line item :: lineItems rest

/-- The lines of entries. -/
def lineEntries : List (Datum × Datum) → List (List Char)
  | [] => []
  | (key, item) :: rest => (line key ++ ':' :: ' ' :: line item) :: lineEntries rest

end

/-- An entry on one line. -/
def lineEntry (entry : Datum × Datum) : List Char :=
  line entry.1 ++ ':' :: ' ' :: line entry.2

theorem lineItems_eq (items : List Datum) : lineItems items = items.map line := by
  induction items with
  | nil => rfl
  | cons item rest ih => rw [lineItems, ih, List.map_cons]

theorem lineEntries_eq (entries : List (Datum × Datum)) : lineEntries entries = entries.map lineEntry := by
  induction entries with
  | nil => rfl
  | cons entry rest ih => rw [lineEntries, ih, List.map_cons, lineEntry]

/-- The style of a line with sorted keys. -/
def lineStyle : Style :=
  { ascii := true, sorted := true, lenient := true }

theorem intercalate_ofList (texts : List (List Char)) :
    ", ".intercalate (texts.map String.ofList) = String.ofList (joined texts) := by
  rw [← String.toList_inj, String.toList_intercalate, String.toList_ofList, List.map_map]
  have hsame : String.toList ∘ String.ofList = id := funext fun _ => String.toList_ofList
  rw [hsame, List.map_id, String.toList_ofList]
  rfl

theorem enclose_line (level : Nat) (opening closing : String) (texts : List (List Char)) :
    lineStyle.enclose level opening closing (texts.map String.ofList) =
      String.ofList (opening.toList ++ (joined texts ++ closing.toList)) := by
  have henclose : lineStyle.enclose level opening closing (texts.map String.ofList) =
      opening ++ ", ".intercalate (texts.map String.ofList) ++ closing := by
    cases texts with
    | nil => simp [Style.enclose]
    | cons text rest => simp [Style.enclose, Style.newline, Style.separator, lineStyle]
  rw [henclose, intercalate_ofList, ← String.toList_inj]
  simp

/-- Written entries with texts as keys are put in the order of their keys. -/
theorem arrange_of_sorted {style : Style} (hsorted : style.sorted = true) {entries : List (Datum × Datum)}
    (h : ∀ entry ∈ entries, entry.1.codes?.isSome = true) (text : Datum × Datum → String) :
    style.arrange (entries.map fun entry => (entry.1, text entry)) =
      .ok ((entries.mergeSort Datum.entryLe).map text) := by
  have hsortable : sortable ((entries.map fun entry => (entry.1, text entry)).map (·.1)) = true := by
    rw [sortable, Bool.or_eq_true, List.all_eq_true]
    refine .inr fun key hkey => ?_
    simp only [List.map_map, List.mem_map, Function.comp_apply] at hkey
    obtain ⟨entry, hentry, rfl⟩ := hkey
    exact h entry hentry
  have hsort : (entries.map fun entry => (entry.1, text entry)).mergeSort (fun a b => keyLe a.1 b.1) =
      (entries.mergeSort Datum.entryLe).map fun entry => (entry.1, text entry) := by
    refine (List.map_mergeSort ?_).symm
    exact fun _ _ _ _ => rfl
  rw [Style.arrange, hsorted, Bool.not_true, if_neg Bool.false_ne_true, if_pos hsortable, hsort,
    List.map_map]
  rfl

theorem arrange_eq {entries : List (Datum × Datum)} (h : ∀ entry ∈ entries, ∃ name, entry.1 = .text name) :
    lineStyle.arrange (entries.map fun entry => (entry.1, String.ofList (lineEntry entry))) =
      .ok (((entries.mergeSort Datum.entryLe).map lineEntry).map String.ofList) := by
  rw [arrange_of_sorted rfl, List.map_map]
  · rfl
  · intro entry hentry
    obtain ⟨name, hname⟩ := h entry hentry
    rw [hname]
    rfl

theorem writeNumber_eq {number : Number} (h : number.isWritable = true) :
    writeNumber number = .ok (String.ofList (numberLine number)) := by
  match number with
  | .float .nan => rfl
  | .float (.infinite negative) => simp [writeNumber, numberLine]
  | .int _ | .float (.finite ..) => simp [writeNumber, numberLine, h]

mutual

/-- A plain value is written on one line with its entries in order. -/
theorem writeAt_eq : (value : Datum) → value.Plain → (level : Nat) →
    writeAt lineStyle level value = .ok (String.ofList (line value.sorted))
  | .null, _, _ => rfl
  | .bool value, _, _ => by cases value <;> rfl
  | .number number, h, _ => writeNumber_eq h.1
  | .text text, _, _ => rfl
  | .list items, h, level => by
      rw [writeAt, writeItems_eq items h]
      change Except.ok (lineStyle.enclose _ _ _ _) = _
      rw [enclose_line, Datum.sorted, line, lineItems_eq]
      rfl
  | .map entries, h, level => by
      have hentries := Datum.entriesPlain_iff.mp (Datum.entriesPlain_sorted entries h)
      rw [writeAt, writeEntries_eq entries h]
      change (lineStyle.arrange _ >>= fun members => Except.ok (lineStyle.enclose _ _ _ members)) = _
      rw [arrange_eq fun entry hentry => (hentries entry hentry).1]
      change Except.ok (lineStyle.enclose _ _ _ _) = _
      rw [enclose_line, Datum.sorted, line, lineEntries_eq]
      rfl

theorem writeItems_eq : (items : List Datum) → Datum.AllPlain items → (level : Nat) →
    writeItems lineStyle level items =
      .ok (((Datum.sortedItems items).map line).map String.ofList)
  | [], _, _ => rfl
  | item :: rest, h, level => by
      rw [writeItems, writeAt_eq item h.1, writeItems_eq rest h.2]
      rfl

theorem writeEntries_eq : (entries : List (Datum × Datum)) → Datum.EntriesPlain entries → (level : Nat) →
    writeEntries lineStyle level entries =
      .ok ((Datum.sortedEntries entries).map fun entry => (entry.1, String.ofList (lineEntry entry)))
  | [], _, _ => rfl
  | (key, item) :: rest, h, level => by
      obtain ⟨name, rfl⟩ := h.1
      rw [writeEntries, writeAt_eq item h.2.1, writeEntries_eq rest h.2.2]
      change Except.ok (_ :: _) = Except.ok (_ :: _)
      refine congrArg Except.ok (congrArg (· :: _) (Prod.ext rfl ?_))
      simp only [lineEntry, line, ← String.toList_inj]
      simp [writeString, quotedLine, lineStyle]

end

section Number

/-- A character of a number as it is written. -/
def isNumberChar (c : Char) : Bool :=
  c.isAlphanum || c == '.' || c == '-' || c == '+'

theorem toString_int (value : Int) :
    (toString value).toList =
      if 0 ≤ value then Nat.toDigits 10 value.toNat else '-' :: Nat.toDigits 10 (-value).toNat := by
  rw [Int.toString_eq_repr, Int.repr_eq_if]
  split_ifs
  · exact Nat.toList_repr
  · rw [String.toList_append, Nat.toList_repr]
    rfl

theorem mem_toString_int {value : Int} {c : Char} (h : c ∈ (toString value).toList) :
    c.isDigit = true ∨ c = '-' := by
  rw [toString_int] at h
  split_ifs at h
  · exact .inl (Nat.isDigit_of_mem_toDigits (by decide) (by decide) h)
  · obtain rfl | h := List.mem_cons.mp h
    · exact .inr rfl
    · exact .inl (Nat.isDigit_of_mem_toDigits (by decide) (by decide) h)

theorem toString_int_injective {value other : Int} (h : (toString value).toList = (toString other).toList) :
    value = other := by
  have hread (n : Nat) : Nat.ofDigitChars 10 (Nat.toDigits 10 n) 0 = n := Nat.ofDigitChars_ten_toDigits
  have hdigit (n : Nat) (rest : List Char) : Nat.toDigits 10 n ≠ '-' :: rest := by
    intro h
    have hmem : '-' ∈ Nat.toDigits 10 n := by simp [h]
    exact absurd (Nat.isDigit_of_mem_toDigits (by decide) (by decide) hmem) (by decide)
  rw [toString_int, toString_int] at h
  split_ifs at h with hvalue hother hother
  · have hsize := congrArg (Nat.ofDigitChars 10 · 0) h
    simp only [hread] at hsize
    omega
  · exact absurd h (hdigit _ _)
  · exact absurd h.symm (hdigit _ _)
  · have hsize := congrArg (Nat.ofDigitChars 10 · 0) (List.cons.inj h).2
    simp only [hread] at hsize
    omega

theorem isNumberChar_numberLine {number : Number} {c : Char} (h : c ∈ numberLine number) :
    isNumberChar c = true := by
  have hdigit {c : Char} (h : c.isDigit = true ∨ c = '-') : isNumberChar c = true := by
    obtain h | rfl := h
    · simp [isNumberChar, Char.isAlphanum, h]
    · decide
  match number with
  | .int value => exact hdigit (mem_toString_int h)
  | .float .nan =>
      have hall : ∀ c ∈ "NaN".toList, isNumberChar c = true := List.all_iff_forall_prop.mp (by decide)
      exact hall c h
  | .float (.infinite negative) =>
      have hall : ∀ c ∈ (if negative then "-Infinity" else "Infinity").toList, isNumberChar c = true := by
        cases negative <;> exact List.all_iff_forall_prop.mp (by decide)
      exact hall c h
  | .float (.finite negative significand exponent) =>
      obtain ⟨-, hchars, -⟩ := Binary64.text_finite_chars negative significand exponent
      have hc := hchars c h
      simp only [isDecimalChar, Bool.or_eq_true, beq_iff_eq] at hc
      obtain (((hc | rfl) | rfl) | rfl) | rfl := hc
      · exact hdigit (.inl hc)
      all_goals decide

/-- What a number starts with. -/
theorem exists_numberLine (number : Number) :
    ∃ c rest, numberLine number = c :: rest ∧ (c.isDigit = true ∨ c = '-' ∨ c = 'N' ∨ c = 'I') := by
  match number with
  | .int value =>
      obtain ⟨c, rest, hline⟩ : ∃ c rest, (toString value).toList = c :: rest := by
        refine List.exists_cons_of_ne_nil ?_
        rw [toString_int]
        split_ifs
        · exact Nat.toDigits_ne_nil
        · simp
      have hc := mem_toString_int (hline ▸ List.mem_cons_self)
      exact ⟨c, rest, hline, hc.imp_right .inl⟩
  | .float .nan => exact ⟨'N', "aN".toList, rfl, by decide⟩
  | .float (.infinite true) => exact ⟨'-', "Infinity".toList, rfl, by decide⟩
  | .float (.infinite false) => exact ⟨'I', "nfinity".toList, rfl, by decide⟩
  | .float (.finite negative significand exponent) =>
      obtain ⟨⟨c, rest, htext, hc⟩, -, -⟩ := Binary64.text_finite_chars negative significand exponent
      exact ⟨c, rest, htext, hc.imp_right .inl⟩

/-- Whole numbers are written without points, exponents and letters. -/
theorem numberLine_int_ne_float (value : Int) (other : Binary64) :
    numberLine (.int value) ≠ numberLine (.float other) := by
  intro h
  have hint {c : Char} (hc : c ∈ numberLine (.float other)) : c.isDigit = true ∨ c = '-' :=
    mem_toString_int (h.symm ▸ hc : c ∈ numberLine (.int value))
  match other with
  | .nan => exact absurd (hint (c := 'N') (by decide)) (by decide)
  | .infinite negative => exact absurd (hint (c := 'I') (by cases negative <;> decide)) (by decide)
  | .finite negative significand exponent =>
      obtain ⟨-, -, hpoint | hpower⟩ := Binary64.text_finite_chars negative significand exponent
      · exact absurd (hint hpoint) (by decide)
      · exact absurd (hint hpower) (by decide)

/-- The undefined number and the infinities are written with letters that no finite number has. -/
theorem numberLine_ne_finite {special : Binary64} {c : Char} (hc : c ∈ numberLine (.float special))
    (hchar : isDecimalChar c = false) (negative : Bool) (significand : Nat) (exponent : Int) :
    numberLine (.float special) ≠ numberLine (.float (.finite negative significand exponent)) := by
  intro h
  rw [h] at hc
  have hdecimal := (Binary64.text_finite_chars negative significand exponent).2.1 c hc
  exact absurd (hdecimal.symm.trans hchar) (by decide)

theorem numberLine_float_injective {a b : Binary64} (ha : a.Canonical) (hb : b.Canonical)
    (h : numberLine (.float a) = numberLine (.float b)) : a = b := by
  have hnan : 'N' ∈ numberLine (.float .nan) := by decide
  have hinfinite (negative : Bool) : 'I' ∈ numberLine (.float (.infinite negative)) := by
    cases negative <;> decide
  match a, b with
  | .nan, .nan => rfl
  | .infinite negative, .infinite other =>
      cases negative <;> cases other <;> first | rfl | exact absurd h (by decide)
  | .finite .., .finite .. => exact Binary64.text_injective ha hb (String.toList_inj.mp h)
  | .nan, .infinite negative => cases negative <;> exact absurd h (by decide)
  | .infinite negative, .nan => cases negative <;> exact absurd h (by decide)
  | .nan, .finite .. => exact absurd h (numberLine_ne_finite hnan (by decide) _ _ _)
  | .finite .., .nan => exact absurd h.symm (numberLine_ne_finite hnan (by decide) _ _ _)
  | .infinite negative, .finite .. =>
      exact absurd h (numberLine_ne_finite (hinfinite negative) (by decide) _ _ _)
  | .finite .., .infinite negative =>
      exact absurd h.symm (numberLine_ne_finite (hinfinite negative) (by decide) _ _ _)

/-- Different numbers are written differently. -/
theorem numberLine_injective {a b : Number} (ha : a.Canonical) (hb : b.Canonical)
    (h : numberLine a = numberLine b) : a = b := by
  match a, b with
  | .int value, .int other => rw [toString_int_injective h]
  | .float value, .float other => rw [numberLine_float_injective ha hb h]
  | .int value, .float other => exact absurd h (numberLine_int_ne_float value other)
  | .float value, .int other => exact absurd h.symm (numberLine_int_ne_float other value)

end Number

/-- A character that closes what stands before it. -/
def isClose (c : Char) : Bool :=
  c == ',' || c == ']' || c == '\x7d'

/-- A text at which a value ends: the end, or a comma or a closing bracket. -/
def Ends (rest : List Char) : Prop :=
  Stops (fun c => !isClose c) rest

theorem Ends.cons {c : Char} {rest : List Char} (h : isClose c = true) : Ends (c :: rest) :=
  Stops.cons (by simp [h])

theorem Ends.stops {rest : List Char} (h : Ends rest) : Stops isNumberChar rest := by
  intro c hc
  have hclose := h c hc
  simp only [isClose, Bool.not_eq_false', Bool.or_eq_true, beq_iff_eq] at hclose
  obtain (rfl | rfl) | rfl := hclose <;> decide

/-- The kind of value that a character starts. -/
def startKind (c : Char) : Nat :=
  if c == 'n' then 0
  else if c == 't' || c == 'f' then 1
  else if c == '"' then 2
  else if c == '[' then 3
  else if c == '\x7b' then 4
  else if isClose c then 5
  else 6

theorem startKind_number {c : Char} (h : c.isDigit = true ∨ c = '-' ∨ c = 'N' ∨ c = 'I') :
    startKind c = 6 := by
  obtain h | rfl | rfl | rfl := h
  · have hne (other : Char) (hother : other.isDigit = false) : (c == other) = false := by
      rw [beq_eq_false_iff_ne]
      rintro rfl
      exact absurd (h.symm.trans hother) (by decide)
    simp only [startKind, isClose, hne 'n' (by decide), hne 't' (by decide), hne 'f' (by decide),
      hne '"' (by decide), hne '[' (by decide), hne '\x7b' (by decide), hne ',' (by decide),
      hne ']' (by decide), hne '\x7d' (by decide), Bool.or_false, Bool.false_eq_true, if_false]
  all_goals decide

/-- The kind of a plain value, as its first character tells it. -/
def kindOf : Datum → Nat
  | .null => 0
  | .bool _ => 1
  | .text _ => 2
  | .list _ => 3
  | .map _ => 4
  | _ => 6

/-- The first character of a value tells its kind. -/
theorem exists_line {value : Datum} (h : value.Plain) :
    ∃ c rest, line value = c :: rest ∧ startKind c = kindOf value := by
  match value with
  | .null => exact ⟨'n', "ull".toList, rfl, rfl⟩
  | .bool true => exact ⟨'t', "rue".toList, rfl, rfl⟩
  | .bool false => exact ⟨'f', "alse".toList, rfl, rfl⟩
  | .number number =>
      obtain ⟨c, rest, hline, hc⟩ := exists_numberLine number
      exact ⟨c, rest, hline, startKind_number hc⟩
  | .text text => exact ⟨'"', _, rfl, rfl⟩
  | .list items => exact ⟨'[', _, rfl, rfl⟩
  | .map entries => exact ⟨'\x7b', _, rfl, rfl⟩

theorem kindOf_eq {a b : Datum} {rest tail : List Char} (ha : a.Plain) (hb : b.Plain)
    (h : line a ++ rest = line b ++ tail) : kindOf a = kindOf b := by
  obtain ⟨c, more, hline, hkind⟩ := exists_line ha
  obtain ⟨c', more', hline', hkind'⟩ := exists_line hb
  rw [hline, hline', List.cons_append, List.cons_append, List.cons.injEq] at h
  rw [← hkind, ← hkind', h.1]

/-- A value does not start with a character that closes. -/
theorem line_ne_close {value : Datum} (h : value.Plain) {c : Char} (hc : isClose c = true)
    (rest tail : List Char) : line value ++ rest ≠ c :: tail := by
  obtain ⟨first, more, hline, hkind⟩ := exists_line h
  rw [hline, List.cons_append, Ne, List.cons.injEq, not_and]
  rintro rfl
  have hclose : startKind first = 5 := by
    simp only [isClose, Bool.or_eq_true, beq_iff_eq] at hc
    obtain (rfl | rfl) | rfl := hc <;> rfl
  rw [hclose] at hkind
  cases value <;> simp [kindOf] at hkind

theorem lineEntry_ne_close {entry : Datum × Datum} (h : ∃ name, entry.1 = .text name) {c : Char}
    (hc : isClose c = true) (rest tail : List Char) : lineEntry entry ++ rest ≠ c :: tail := by
  obtain ⟨name, hname⟩ := h
  rw [lineEntry, hname, List.append_assoc]
  exact @line_ne_close (.text name) trivial _ hc _ _

/-- Entries can be told apart when their values can. -/
theorem lineEntry_inj {a b : Datum × Datum} (ha : ∃ name, a.1 = .text name)
    (hb : ∃ name, b.1 = .text name) {rest tail : List Char}
    (hinj : line a.2 ++ rest = line b.2 ++ tail → a.2 = b.2 ∧ rest = tail)
    (h : lineEntry a ++ rest = lineEntry b ++ tail) : a = b ∧ rest = tail := by
  obtain ⟨key, value⟩ := a
  obtain ⟨other, value'⟩ := b
  obtain ⟨name, rfl⟩ := ha
  obtain ⟨name', rfl⟩ := hb
  simp only [lineEntry, line, quotedLine, List.cons_append, List.append_assoc, List.cons.injEq, true_and,
    List.nil_append] at h
  obtain ⟨hchars, hbehind⟩ := escaped_inj h
  simp only [List.cons.injEq, true_and] at hbehind
  obtain ⟨rfl, hrest⟩ := hinj hbehind
  exact ⟨by rw [String.toList_inj.mp hchars], hrest⟩

section Members

variable {α : Type} {written : α → List Char} {fits : α → Prop} {close : Char}
  (hclose : isClose close = true) (hcomma : close ≠ ',')

/-- What stands behind the first one of some members. -/
def behind (written : α → List Char) (items : List α) : List Char :=
  items.flatMap fun item => ',' :: ' ' :: written item

theorem joined_cons (item : α) (items : List α) :
    joined ((item :: items).map written) = written item ++ behind written items := by
  induction items generalizing item with
  | nil => simp [joined, behind]
  | cons other rest ih =>
      rw [List.map_cons, List.map_cons, joined, List.intercalate_cons_cons, ← joined, ← List.map_cons,
        ih other]
      simp [behind]

include hclose in
theorem ends_behind (items : List α) (rest : List Char) : Ends (behind written items ++ close :: rest) := by
  cases items with
  | nil => exact .cons hclose
  | cons item items => exact .cons rfl

include hclose hcomma

theorem behind_inj {items others : List α} {rest tail : List Char}
    (hinj : ∀ a ∈ items, ∀ b ∈ others, ∀ {rest tail : List Char}, Ends rest → Ends tail →
      written a ++ rest = written b ++ tail → a = b ∧ rest = tail)
    (h : behind written items ++ close :: rest = behind written others ++ close :: tail) :
    items = others ∧ rest = tail := by
  induction items generalizing others with
  | nil =>
      cases others with
      | nil => exact ⟨rfl, (List.cons.inj h).2⟩
      | cons other others => exact absurd (List.cons.inj h).1 hcomma
  | cons item items ih =>
      cases others with
      | nil => exact absurd (List.cons.inj h).1.symm hcomma
      | cons other others =>
          simp only [behind, List.flatMap_cons, List.cons_append, List.append_assoc, List.cons.injEq,
            true_and] at h
          obtain ⟨rfl, hbehind⟩ := hinj item List.mem_cons_self other List.mem_cons_self
            (ends_behind hclose items rest) (ends_behind hclose others tail) h
          obtain ⟨rfl, hrest⟩ := ih (fun a ha b hb => hinj a (List.mem_cons_of_mem _ ha) b
            (List.mem_cons_of_mem _ hb)) hbehind
          exact ⟨rfl, hrest⟩

/-- Members can be told apart when each one can. -/
theorem joined_inj {items others : List α} {rest tail : List Char}
    (hitems : ∀ a ∈ items, ∀ rest, written a ++ rest ≠ close :: tail)
    (hothers : ∀ b ∈ others, ∀ tail, written b ++ tail ≠ close :: rest)
    (hinj : ∀ a ∈ items, ∀ b ∈ others, ∀ {rest tail : List Char}, Ends rest → Ends tail →
      written a ++ rest = written b ++ tail → a = b ∧ rest = tail)
    (h : joined (items.map written) ++ close :: rest = joined (others.map written) ++ close :: tail) :
    items = others ∧ rest = tail := by
  cases items with
  | nil =>
      cases others with
      | nil => exact ⟨rfl, (List.cons.inj h).2⟩
      | cons other others =>
          rw [joined_cons, List.append_assoc] at h
          exact absurd h.symm (hothers other List.mem_cons_self _)
  | cons item items =>
      cases others with
      | nil =>
          rw [joined_cons, List.append_assoc] at h
          exact absurd h (hitems item List.mem_cons_self _)
      | cons other others =>
          rw [joined_cons, joined_cons, List.append_assoc, List.append_assoc] at h
          obtain ⟨rfl, hbehind⟩ := hinj item List.mem_cons_self other List.mem_cons_self
            (ends_behind hclose items rest) (ends_behind hclose others tail) h
          obtain ⟨rfl, hrest⟩ := behind_inj hclose hcomma (fun a ha b hb =>
            hinj a (List.mem_cons_of_mem _ ha) b (List.mem_cons_of_mem _ hb)) hbehind
          exact ⟨rfl, hrest⟩

end Members

mutual

/-- Different plain values have different lines, and the end of a line can be seen. -/
theorem line_inj : (a : Datum) → {b : Datum} → a.Plain → b.Plain → {rest tail : List Char} →
    Ends rest → Ends tail → line a ++ rest = line b ++ tail → a = b ∧ rest = tail
  | .null, b, ha, hb, _, _, _, _, h => by
      have hkind := kindOf_eq ha hb h
      cases b with
      | null => exact ⟨rfl, List.append_cancel_left h⟩
      | _ => simp [kindOf] at hkind
  | .bool value, b, ha, hb, _, _, _, _, h => by
      have hkind := kindOf_eq ha hb h
      cases b with
      | bool other =>
          cases value <;> cases other
          · exact ⟨rfl, List.append_cancel_left h⟩
          · simp [line] at h
          · simp [line] at h
          · exact ⟨rfl, List.append_cancel_left h⟩
      | _ => simp [kindOf] at hkind
  | .number number, b, ha, hb, rest, tail, hrest, htail, h => by
      have hkind := kindOf_eq ha hb h
      cases b with
      | number other =>
          have hline : numberLine number = numberLine other := by
            have htake := congrArg (List.takeWhile isNumberChar) h
            rwa [line, line, takeWhile_append_of_stops (fun c hc => isNumberChar_numberLine hc) hrest.stops,
              takeWhile_append_of_stops (fun c hc => isNumberChar_numberLine hc) htail.stops] at htake
          obtain rfl := numberLine_injective ha.2 hb.2 hline
          exact ⟨rfl, List.append_cancel_left h⟩
      | null | bool | text | list | map => simp [kindOf] at hkind
      | _ => exact False.elim hb
  | .text text, b, ha, hb, rest, tail, _, _, h => by
      have hkind := kindOf_eq ha hb h
      cases b with
      | text other =>
          simp only [line, quotedLine, List.cons_append, List.append_assoc, List.cons.injEq, true_and,
            List.nil_append] at h
          obtain ⟨hchars, hrest⟩ := escaped_inj h
          exact ⟨congrArg Datum.text (String.toList_inj.mp hchars), hrest⟩
      | _ => simp [kindOf] at hkind
  | .list items, b, ha, hb, rest, tail, _, _, h => by
      have hkind := kindOf_eq ha hb h
      cases b with
      | list others =>
          simp only [line, List.cons_append, List.append_assoc, List.cons.injEq, true_and,
            List.nil_append] at h
          rw [lineItems_eq, lineItems_eq] at h
          have hitems := Datum.allPlain_iff.mp ha
          have hothers := Datum.allPlain_iff.mp hb
          obtain ⟨rfl, hrest⟩ := joined_inj rfl (by decide)
            (fun a ha rest => line_ne_close (hitems a ha) rfl _ _)
            (fun b hb tail => line_ne_close (hothers b hb) rfl _ _)
            (fun a hmem b hb _ _ => line_inj_items items ha a hmem (hothers b hb)) h
          exact ⟨rfl, hrest⟩
      | _ => simp [kindOf] at hkind
  | .map entries, b, ha, hb, rest, tail, _, _, h => by
      have hkind := kindOf_eq ha hb h
      cases b with
      | map others =>
          simp only [line, List.cons_append, List.append_assoc, List.cons.injEq, true_and,
            List.nil_append] at h
          rw [lineEntries_eq, lineEntries_eq] at h
          have hentries := Datum.entriesPlain_iff.mp ha
          have hothers := Datum.entriesPlain_iff.mp hb
          obtain ⟨rfl, hrest⟩ := joined_inj rfl (by decide)
            (fun a ha rest => lineEntry_ne_close (hentries a ha).1 rfl _ _)
            (fun b hb tail => lineEntry_ne_close (hothers b hb).1 rfl _ _)
            (fun a hmem b hb _ _ hrest htail => lineEntry_inj (hentries a hmem).1 (hothers b hb).1
              fun hline => line_inj_entries entries ha a hmem (hothers b hb).2 hrest htail hline) h
          exact ⟨rfl, hrest⟩
      | _ => simp [kindOf] at hkind

theorem line_inj_items : (items : List Datum) → Datum.AllPlain items → ∀ a ∈ items, ∀ {b : Datum},
    b.Plain → ∀ {rest tail : List Char}, Ends rest → Ends tail → line a ++ rest = line b ++ tail →
      a = b ∧ rest = tail
  | [], _ => by simp
  | item :: items, h => by
      refine List.forall_mem_cons.mpr ⟨?_, line_inj_items items h.2⟩
      exact fun hb _ _ hrest htail hline => line_inj item h.1 hb hrest htail hline

theorem line_inj_entries : (entries : List (Datum × Datum)) → Datum.EntriesPlain entries →
    ∀ a ∈ entries, ∀ {b : Datum}, b.Plain → ∀ {rest tail : List Char}, Ends rest → Ends tail →
      line a.2 ++ rest = line b ++ tail → a.2 = b ∧ rest = tail
  | [], _ => by simp
  | (_, item) :: entries, h => by
      refine List.forall_mem_cons.mpr ⟨?_, line_inj_entries entries h.2.2⟩
      exact fun hb _ _ hrest htail hline => line_inj item h.2.1 hb hrest htail hline

end

/-- Values that are written alike differ at most in the order of entries. -/
theorem sorted_eq_of_write_eq {a b : Datum} (ha : a.Plain) (hb : b.Plain)
    (h : write lineStyle a = write lineStyle b) : a.sorted = b.sorted := by
  rw [write, write, writeAt_eq a ha, writeAt_eq b hb, Except.ok.injEq] at h
  have hline : line a.sorted ++ [] = line b.sorted ++ [] := by
    simpa using congrArg String.toList h
  have hends : Ends [] := by simp [Ends, Stops]
  exact (line_inj a.sorted (Datum.Plain.sorted a ha) (Datum.Plain.sorted b hb) hends hends hline).1

end DocCompiler.Json
