import DocCompiler.Proofs.Annotation.Print

/-!
Leaves and keys as they are read: how their texts start and end, and that no leaf is taken for a key.
-/

namespace DocCompiler.Annotation

open Text

section Begin

variable {constants : Constants} {c : Char} {rest : List Char}

theorem begins_cons (hblank : isBlank c = false) (hmark : isEndMark c = false) (hcolon : c ≠ ':') :
    Begins (c :: rest) :=
  ⟨c, rest, rfl, hblank, hmark, hcolon⟩

/-- A character of a class without blanks, marks and colons begins a value. -/
theorem begins_of_test {test : Char → Bool} (hblank : ∀ c, isBlank c = true → test c = false)
    (hmark : ∀ c ∈ [',', ')', '\x7d', ':'], test c = false) (hc : test c = true) :
    Begins (c :: rest) := by
  refine begins_cons ?_ ?_ ?_
  · by_contra h
    simp [hblank c (by simpa using h)] at hc
  · by_contra h
    simp only [isEndMark, Bool.not_eq_false, Bool.or_eq_true, beq_iff_eq] at h
    have hmem : c ∈ [',', ')', '\x7d', ':'] := by
      obtain (rfl | rfl) | rfl := h <;> simp
    simp [hmark c hmem] at hc
  · rintro rfl
    simp [hmark ':' (by simp)] at hc

theorem IsName.begins {name : List Char} (h : IsName name) : Begins name := by
  have hword := h.isWord
  obtain ⟨hfirst, -⟩ := h
  exact begins_of_test (fun _ => isWord_of_isBlank) (List.all_iff_forall_prop.mp (by decide))
    (hword _ List.mem_cons_self)

theorem IsIdentifier.begins {word : List Char} (h : IsIdentifier word) : Begins word := by
  obtain @⟨lead, chars, first, members, hlead, hfirst, -, -⟩ := h
  obtain rfl | rfl := hlead
  · exact begins_of_test (fun _ => isWord_of_isBlank) (List.all_iff_forall_prop.mp (by decide))
      (isWord_of_isNameStart hfirst)
  · exact begins_cons (by decide) (by decide) (by decide)

theorem IsNumeral.begins {value : Int} {text : List Char} (h : IsNumeral value text) : Begins text := by
  obtain ⟨c, rest, rfl, hc | rfl | rfl⟩ := h.head_isDecimal
  · exact begins_of_test (fun _ => isDecimal_of_isBlank) (List.all_iff_forall_prop.mp (by decide)) hc
  · exact begins_cons (by decide) (by decide) (by decide)
  · exact begins_cons (by decide) (by decide) (by decide)

theorem isNameStart_of_toLower {c : Char} (h : isNameStart c.toLower = true) : isNameStart c = true := by
  unfold Char.toLower at h
  split at h
  · rename_i hupper
    have hletter : (c.isUpper || c.isLower) = true := Bool.or_eq_true_iff.mpr (.inl (decide_eq_true hupper))
    exact Bool.or_eq_true_iff.mpr (.inl hletter)
  · exact h

/-- A keyword in any case is a name. -/
theorem IsName.of_isKeyword {word : List Char} (h : isKeyword word = true) : IsName word := by
  have hletters : ∀ c ∈ word, isNameStart c = true := by
    intro c hc
    refine isNameStart_of_toLower ?_
    have hlower : c.toLower ∈ word.map Char.toLower := List.mem_map_of_mem hc
    have hkeyword : word.map Char.toLower ∈ [['t', 'r', 'u', 'e'], ['f', 'a', 'l', 's', 'e'],
        ['n', 'u', 'l', 'l']] := by
      simp only [isKeyword, List.contains_eq_mem, List.mem_cons, List.not_mem_nil, or_false,
        decide_eq_true_eq] at h
      rw [← String.toList_ofList (l := word.map Char.toLower)]
      obtain h | h | h := h <;> rw [h] <;> decide
    have hall : ∀ keyword ∈ [['t', 'r', 'u', 'e'], ['f', 'a', 'l', 's', 'e'], ['n', 'u', 'l', 'l']],
        keyword.all isNameStart = true :=
      List.all_iff_forall_prop.mp (by decide)
    exact List.all_eq_true.mp (hall _ hkeyword) _ hlower
  cases word with
  | nil => exact absurd h (by decide)
  | cons c rest =>
      exact .intro (hletters c List.mem_cons_self) fun other hother =>
        isWord_of_isNameStart (hletters other (List.mem_cons_of_mem _ hother))

theorem IsName.isIdentifier {name : List Char} (h : IsName name) : IsIdentifier name := by
  obtain ⟨hfirst, hrest⟩ := h
  have hintro := @IsIdentifier.intro [] _ _ [] (.inl rfl) hfirst
    (fun c hc => by rw [isPathChar, hrest c hc, Bool.true_or]) (by simp)
  simpa using hintro

end Begin

section Follow

variable {rest : List Char} (h : Follows rest)

include h

theorem Follows.stops_of_test {test : Char → Bool} (hblank : ∀ c, isBlank c = true → test c = false)
    (hmark : ∀ c ∈ [',', ')', '\x7d'], test c = false) : Stops test rest := by
  refine h.stops hblank fun c hc => hmark c ?_
  simpa [isEndMark, or_assoc] using hc

theorem Follows.stops_isWord : Stops isWord rest :=
  h.stops_of_test (fun _ => isWord_of_isBlank) (List.all_iff_forall_prop.mp (by decide))

theorem Follows.stops_isDecimal : Stops isDecimal rest :=
  h.stops_of_test (fun _ => isDecimal_of_isBlank) (List.all_iff_forall_prop.mp (by decide))

theorem Follows.stops_isPathChar : Stops isPathChar rest := by
  refine h.stops_of_test (fun c hc => ?_) (List.all_iff_forall_prop.mp (by decide))
  rw [isPathChar, isWord_of_isBlank hc, Bool.false_or, beq_eq_false_iff_ne]
  rintro rfl
  exact absurd hc (by decide)

theorem Follows.memberMark_eq_nil : memberMark rest = [] := by
  unfold memberMark
  split
  · exact absurd rfl (h.head_ne (c := ':') (by decide) (by decide))
  · exact absurd rfl (h.head_ne (c := '.') (by decide) (by decide))
  · rfl

theorem Follows.namespaceMark_eq_nil : namespaceMark rest = [] := by
  unfold namespaceMark
  split
  · exact absurd rfl (h.head_ne (c := '\\') (by decide) (by decide))
  · rfl

theorem Follows.exponent_eq_nil : exponent rest = [] := by
  cases rest with
  | nil => rfl
  | cons c rest =>
      have hmark : (c == 'e' || c == 'E') = false := by
        rw [Bool.or_eq_false_iff, beq_eq_false_iff_ne, beq_eq_false_iff_ne]
        constructor
        · rintro rfl
          exact h.head_ne (c := 'e') (by decide) (by decide) rfl
        · rintro rfl
          exact h.head_ne (c := 'E') (by decide) (by decide) rfl
      rw [exponent, hmark, if_neg Bool.false_ne_true]

end Follow

/-- A text that starts neither with a quote nor with a brace nor with the mark of a tag. -/
def StartsPlain (text : List Char) : Prop :=
  ∃ c rest, text = c :: rest ∧ c ≠ '"' ∧ c ≠ '\x7b' ∧ c ≠ '@'

theorem startsPlain_of_test {test : Char → Bool} {c : Char} {rest : List Char}
    (hmark : ∀ c ∈ ['"', '\x7b', '@'], test c = false) (hc : test c = true) : StartsPlain (c :: rest) := by
  simp only [List.forall_mem_cons] at hmark
  obtain ⟨hquote, hbrace, hat, -⟩ := hmark
  refine ⟨c, rest, rfl, ?_, ?_, ?_⟩ <;> rintro rfl
  · simp [hquote] at hc
  · simp [hbrace] at hc
  · simp [hat] at hc

theorem IsNumeral.startsPlain {value : Int} {text : List Char} (h : IsNumeral value text) :
    StartsPlain text := by
  obtain ⟨c, rest, rfl, hc | rfl | rfl⟩ := h.head_isDecimal
  · exact startsPlain_of_test (List.all_iff_forall_prop.mp (by decide)) hc
  · exact ⟨_, _, rfl, by decide, by decide, by decide⟩
  · exact ⟨_, _, rfl, by decide, by decide, by decide⟩

theorem IsIdentifier.startsPlain {word : List Char} (h : IsIdentifier word) : StartsPlain word := by
  obtain @⟨lead, chars, first, members, hlead, hfirst, -, -⟩ := h
  obtain rfl | rfl := hlead
  · exact startsPlain_of_test (List.all_iff_forall_prop.mp (by decide)) hfirst
  · exact ⟨_, _, rfl, by decide, by decide, by decide⟩

namespace Reader

section Leaf

variable {setting : Setting} {inner : Inner} {rest : List Char} {offset : Nat}
  {problems : List (Issue × Nat)}

theorem run_string {body text : List Char} (htext : Quotes body text) (hrest : rest.head? ≠ some '"') :
    string.run (.before offset ('"' :: (text ++ ['"']) ++ rest) problems) =
      .ok (String.ofList body, .before (offset + ('"' :: (text ++ ['"'])).length) rest problems) := by
  have hbody : stringBody (text ++ ['"'] ++ rest) = some (body, text.length + 1) := by
    rw [List.append_assoc]
    exact stringBody_append htext hrest
  have hlength : text.length + 1 + 1 = ('"' :: (text ++ ['"'])).length := by simp
  rw [string, run_cursor_bind]
  simp only [ReadState.before, List.cons_append, List.drop_succ_cons, List.drop_zero, hbody]
  rw [hlength]
  exact run_advance_append

theorem run_value_numeral {value : Int} {text : List Char} (htext : IsNumeral value text)
    (hrest : Follows rest) :
    (Reader.value setting inner).run (.before offset (text ++ rest) problems) =
      .ok (.number (.int value), .before (offset + text.length) rest problems) := by
  have hnumeral : numeral (text ++ rest) = text := numeral_append htext hrest.stops_isDecimal
    (hrest.head_ne (by decide) (by decide)) hrest.exponent_eq_nil
  have hempty : text.isEmpty = false := by simpa using htext.ne_nil
  obtain ⟨c, more, hcons, hquote, hbrace, hat⟩ := htext.startsPlain
  rw [Reader.value, run_cursor_bind]
  split
  case h_5 =>
    simp only [ReadState.before, hnumeral, hempty, Bool.not_false, if_true]
    rw [← ReadState.before, run_advance_append, numeralValue_of_isNumeral htext]
    rfl
  all_goals
    rename_i hpeek
    simp [ReadState.before, Cursor.peek?, hcons, hquote, hbrace, hat] at hpeek

theorem run_value_word {word : List Char} (hword : IsIdentifier word) (hrest : Follows rest) :
    (value setting inner).run (.before offset (word ++ rest) problems) =
      match wordValue setting.constants (String.ofList word) with
      | .ok value => .ok (value, .before (offset + word.length) rest problems)
      | .error (.unsupported kind) =>
          .error (.issue (.unsupportedConstant (String.ofList word) kind) offset)
      | .error .longKey => .error (.number .key) := by
  have hnumeral : numeral (word ++ rest) = [] := numeral_of_isIdentifier hword
  have hread : identifier (word ++ rest) = word :=
    identifier_append hword hrest.stops_isPathChar hrest.memberMark_eq_nil
  obtain ⟨c, more, hcons, hquote, hbrace, hat⟩ := hword.startsPlain
  have hempty : word.isEmpty = false := by simp [hcons]
  rw [Reader.value, run_cursor_bind]
  split
  case h_5 =>
    simp only [ReadState.before, hnumeral, hread, hempty, List.isEmpty_nil, Bool.not_true,
      Bool.false_eq_true, if_false]
    rw [← ReadState.before, run_advance_append]
    cases wordValue setting.constants (String.ofList word) with
    | ok value => rfl
    | error error => cases error <;> rfl
  all_goals
    rename_i hpeek
    simp [ReadState.before, Cursor.peek?, hcons, hquote, hbrace, hat] at hpeek

theorem wordValue_of_lowered {constants : Constants} {word : List Char} {lowered : String}
    (h : String.ofList (word.map Char.toLower) = lowered) :
    wordValue constants (String.ofList word) =
      if lowered == "true" then .ok (.boolean true)
      else if lowered == "false" then .ok (.boolean false)
      else if lowered == "null" then .ok .null
      else
        match constants.get? (String.ofList word) with
        | none => .ok (.constant (String.ofList word))
        | some datum => Value.ofDatum datum := by
  have hlowered : String.ofList ((String.ofList word).toList.map Char.toLower) = lowered := by
    rw [String.toList_ofList, h]
  subst hlowered
  rfl

theorem wordValue_of_unknown {constants : Constants} {name : String}
    (hkeyword : isKeyword name.toList = false) (hunknown : constants.get? name = none) :
    wordValue constants name = .ok (.constant name) := by
  simp only [isKeyword, List.contains_eq_mem, List.mem_cons, List.not_mem_nil, or_false,
    decide_eq_false_iff_not, not_or] at hkeyword
  simp only [wordValue, beq_iff_eq, hkeyword, if_false, hunknown]

/-- Leaves are read on every level. -/
theorem leaf_reads {kind : LeafKind} {data : Datum} {text : List Char}
    (hprintable : kind.Printable setting.constants data) (hprints : kind.Prints data text) :
    Reads (Reader.value setting inner) text True (· = .leaf kind data) := by
  have hword {word : List Char} (hword : IsIdentifier word)
      (hvalue : wordValue setting.constants (String.ofList word) = .ok (.leaf kind data)) :
      Reads (Reader.value setting inner) word True (· = .leaf kind data) := by
    refine ⟨fun _ offset rest problems hrest => ⟨_, rfl, ?_⟩, fun h => absurd trivial h⟩
    rw [run_value_word hword hrest, hvalue]
  cases hprints with
  | @string body text htext =>
      refine ⟨fun _ offset rest problems hrest => ⟨_, rfl, ?_⟩, fun h => absurd trivial h⟩
      rw [Reader.value, run_cursor_bind]
      have hstring := @run_string _ offset problems _ _ htext
        (hrest.head_ne (c := '"') (by decide) (by decide))
      exact (Result.run_bind_of_ok hstring).trans rfl
  | number htext =>
      refine ⟨fun _ offset rest problems hrest => ⟨_, rfl, ?_⟩, fun h => absurd trivial h⟩
      exact run_value_numeral htext hrest
  | @boolean value text htext =>
      refine hword (IsName.of_isKeyword ?_).isIdentifier ?_
      · rw [isKeyword, htext]
        cases value <;> decide
      · rw [wordValue_of_lowered htext]
        cases value <;> rfl
  | null htext =>
      refine hword (IsName.of_isKeyword ?_).isIdentifier ?_
      · rw [isKeyword, htext]
        decide
      · rw [wordValue_of_lowered htext]
        rfl
  | @constant name =>
      obtain ⟨hidentifier, hkeyword, hunknown⟩ := hprintable
      refine hword hidentifier ?_
      rw [String.ofList_toList]
      exact wordValue_of_unknown hkeyword hunknown

end Leaf

section Key

variable {rest : List Char} {offset : Nat} {problems : List (Issue × Nat)}

/-- Behind blanks stands no mark that ends a key. -/
def KeyEnds (text : List Char) : Prop :=
  ∃ c rest, text.dropWhile isBlank = c :: rest ∧ (c = '=' ∨ c = ':' ∧ rest.head? ≠ some ':')

theorem not_keyEnds_of_follows (h : Follows rest) : ¬ KeyEnds rest := by
  rintro ⟨c, more, hrest, hc⟩
  rw [Follows, hrest] at h
  have hmark := h.head
  obtain rfl | ⟨rfl, -⟩ := hc <;> revert hmark <;> decide

theorem not_keyEnds_cons {c : Char} (hblank : isBlank c = false) (hequals : c ≠ '=')
    (hcolon : c = ':' → rest.head? = some ':') : ¬ KeyEnds (c :: rest) := by
  rintro ⟨other, more, hrest, hother⟩
  rw [List.dropWhile_cons, hblank, if_neg Bool.false_ne_true] at hrest
  obtain ⟨rfl, rfl⟩ := List.cons.inj hrest
  obtain rfl | ⟨rfl, hmore⟩ := hother
  · exact hequals rfl
  · exact hmore (hcolon rfl)

/-- What is made of a text read in the place of a key. -/
def keyBehind (start : Cursor) (key : Option String) : Reader (Option String) := do
  let after := (← cursor).skipBlanks
  match key, after.rest with
  | some _, ':' :: ':' :: _ =>
      moveTo start
      return none
  | some key, c :: _ =>
      if c == ':' || c == '=' then
        moveTo (after.advance 1)
        return some key
      else
        moveTo start
        return none
  | _, _ =>
      moveTo start
      return none

theorem entryKey?_eq : entryKey? = (do
    let start ← cursor
    if start.peek? == some '"' then do
      let key ← string
      keyBehind start (some key)
    else do
      let name := simpleName start.rest
      advance name.length
      keyBehind start (if name.isEmpty then none else some (String.ofList name))) := by
  rw [entryKey?]
  refine bind_congr fun start => ?_
  split_ifs
  · simp only [pure_bind]
    rfl
  · simp only [pure_bind]
    rfl

theorem run_keyBehind_none {start : Cursor} {key : Option String} (h : key = none ∨ ¬ KeyEnds rest) :
    (keyBehind start key).run (.before offset rest problems) = .ok (none, ⟨start, problems⟩) := by
  have hrest : ((ReadState.before offset rest problems).cursor.skipBlanks).rest =
      rest.dropWhile isBlank := Cursor.skipWhile_rest _ _
  rw [keyBehind, run_cursor_bind]
  dsimp only
  rw [hrest]
  split
  · rfl
  · rename_i c more hcolons htext
    rw [if_neg]
    · rfl
    · intro hc
      simp only [Bool.or_eq_true, beq_iff_eq] at hc
      refine h.elim (by simp) fun hends => hends ⟨c, more, htext, ?_⟩
      refine hc.symm.imp_right fun hcolon => ⟨hcolon, ?_⟩
      rintro hmore
      cases more with
      | nil => simp at hmore
      | cons other more => 
          obtain rfl := Option.some.inj hmore
          exact hcolons _ hcolon rfl
  · rfl

theorem run_entryKey_none {name tail : List Char} (hquote : (name ++ tail).head? ≠ some '"')
    (hname : simpleName (name ++ tail) = name) (htail : name = [] ∨ ¬ KeyEnds tail) :
    entryKey?.run (.before offset (name ++ tail) problems) =
      .ok (none, .before offset (name ++ tail) problems) := by
  have hpeek : ((ReadState.before offset (name ++ tail) problems).cursor.peek? == some '"') = false := by
    simpa [ReadState.before, Cursor.peek?] using hquote
  rw [entryKey?_eq, run_cursor_bind, hpeek, if_neg Bool.false_ne_true]
  simp only [ReadState.before, hname]
  rw [← ReadState.before, run_advance_append, run_keyBehind_none]
  · rfl
  · refine htail.imp_left ?_
    rintro rfl
    rfl

/-- A key with the mark behind it. -/
theorem run_keyBehind_some {start : Cursor} {key : String} {before more : List Char} {mark : Char}
    (hbefore : ∀ c ∈ before, isBlank c = true) (hmark : mark ∈ [':', '='])
    (hmore : more.head? ≠ some ':') :
    (keyBehind start (some key)).run (.before offset (before ++ mark :: more) problems) =
      .ok (some key, .before (offset + before.length + 1) more problems) := by
  have hblank : isBlank mark = false :=
    (show ∀ c ∈ [':', '='], isBlank c = false from List.all_iff_forall_prop.mp (by decide)) mark
    hmark
  have hafter : (ReadState.before offset (before ++ mark :: more) problems).cursor.skipBlanks =
      ⟨offset + before.length, mark :: more⟩ :=
    Cursor.skipWhile_append hbefore (.cons hblank)
  rw [keyBehind, run_cursor_bind, hafter]
  dsimp only
  split
  · rename_i heq
    obtain ⟨rfl, rfl⟩ := List.cons.inj heq
    simp at hmore
  · rename_i heq
    obtain ⟨rfl, rfl⟩ := List.cons.inj heq
    obtain rfl := Option.some.inj ‹some key = some _›
    rw [if_pos (show (mark == ':' || mark == '=') = true by simpa using hmark)]
    rfl
  · rename_i hother
    exact (hother key mark more rfl rfl).elim

theorem run_entryKey_some {key : Datum} {name before more : List Char} {mark : Char}
    (hname : SpellsKey key name) (hbefore : ∀ c ∈ before, isBlank c = true)
    (hmark : mark ∈ [':', '=']) (hmore : more.head? ≠ some ':') :
    ∃ text, key = .text text ∧
      entryKey?.run (.before offset (name ++ (before ++ mark :: more)) problems) =
        .ok (some text, .before (offset + name.length + before.length + 1) more problems) := by
  have htail (test : Char → Bool) (hblank : ∀ c, isBlank c = true → test c = false)
      (hmarks : ∀ c ∈ [':', '='], test c = false) : Stops test (before ++ mark :: more) := by
    cases before with
    | nil => exact .cons (hmarks mark hmark)
    | cons c before => exact .cons (hblank c (hbefore c List.mem_cons_self))
  cases hname with
  | @bare name hname =>
      refine ⟨_, rfl, ?_⟩
      have hread : simpleName (name ++ (before ++ mark :: more)) = name :=
        simpleName_append hname
          (htail isWord (fun _ => isWord_of_isBlank) (List.all_iff_forall_prop.mp (by decide)))
      have hquote : ((ReadState.before offset (name ++ (before ++ mark :: more)) problems).cursor.peek? ==
          some '"') = false := by
        obtain ⟨hfirst, -⟩ := hname
        rw [beq_eq_false_iff_ne]
        rintro hpeek
        obtain rfl := Option.some.inj hpeek
        exact absurd hfirst (by decide)
      have hempty : name.isEmpty = false := by simpa using hname.ne_nil
      rw [entryKey?_eq, run_cursor_bind, hquote, if_neg Bool.false_ne_true]
      simp only [ReadState.before, hread, hempty]
      rw [← ReadState.before, run_advance_append]
      exact run_keyBehind_some hbefore hmark hmore
  | @quoted body text htext =>
      refine ⟨_, rfl, ?_⟩
      have hquote : (before ++ mark :: more).head? ≠ some '"' := by
        intro hhead
        have hstops := htail (· == '"')
          (fun c hc => by
            rw [beq_eq_false_iff_ne]
            rintro rfl
            exact absurd hc (by decide))
          (List.all_iff_forall_prop.mp (by decide)) '"' hhead
        simp at hstops
      rw [entryKey?_eq, run_cursor_bind, if_pos (by rfl), Result.run_bind_of_ok (run_string htext hquote)]
      exact run_keyBehind_some hbefore hmark hmore

/-- What stands behind the name that an identifier starts with is no mark of a key. -/
theorem exists_name_of_isIdentifier {word : List Char} (hword : IsIdentifier word) (hrest : Follows rest) :
    ∃ name tail, word ++ rest = name ++ tail ∧ simpleName (name ++ tail) = name ∧
      (name = [] ∨ ¬ KeyEnds tail) := by
  obtain @⟨lead, chars, first, members, hlead, hfirst, hchars, hmembers⟩ := hword
  obtain rfl | rfl := hlead
  · have hmember : Stops isWord (members.flatten ++ rest) ∧ ¬ KeyEnds (members.flatten ++ rest) := by
      cases members with
      | nil => exact ⟨hrest.stops_isWord, not_keyEnds_of_follows hrest⟩
      | cons member members =>
          cases hmembers member List.mem_cons_self with
          | static => exact ⟨.cons (by decide), not_keyEnds_cons (by decide) (by decide) fun _ => rfl⟩
          | field =>
              exact ⟨.cons (by decide),
                not_keyEnds_cons (by decide) (by decide) fun h => absurd h (by decide)⟩
    have htail : Stops isWord (chars.dropWhile isWord ++ (members.flatten ++ rest)) ∧
        ¬ KeyEnds (chars.dropWhile isWord ++ (members.flatten ++ rest)) := by
      cases hdrop : chars.dropWhile isWord with
      | nil => exact hmember
      | cons c more =>
          have hc : isWord c = false := by
            simpa [hdrop] using List.head_dropWhile_not isWord (l := chars) (by simp [hdrop])
          have hmem : c ∈ chars := (List.dropWhile_sublist isWord).subset (hdrop ▸ List.mem_cons_self)
          obtain rfl : c = '\\' := by simpa [isPathChar, hc] using hchars c hmem
          exact ⟨.cons hc, not_keyEnds_cons (by decide) (by decide) fun h => absurd h (by decide)⟩
    refine ⟨first :: chars.takeWhile isWord, chars.dropWhile isWord ++ (members.flatten ++ rest), ?_, ?_,
      .inr htail.2⟩
    · simp only [List.nil_append, List.cons_append, List.append_assoc]
      rw [← List.append_assoc (chars.takeWhile isWord), List.takeWhile_append_dropWhile]
    · exact simpleName_append (.intro hfirst (List.all_eq_true.mp List.all_takeWhile)) htail.1
  · exact ⟨[], _, rfl, simpleName_of_stops (.cons (by decide)), .inl rfl⟩

end Key

end Reader

end DocCompiler.Annotation
