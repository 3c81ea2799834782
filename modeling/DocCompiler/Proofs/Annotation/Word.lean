import DocCompiler.Annotation.TagReader
import DocCompiler.Proofs.Text.Line

/-!
The words of the annotation language: names, identifiers, numerals and texts in quotes. Each kind is
described on its own, and what is written in its form is read as a whole.
-/

namespace DocCompiler.Annotation

open Text

/-- A name: a letter or underscore and word characters. -/
inductive IsName : List Char → Prop
  | intro {first : Char} {rest : List Char} (hfirst : isNameStart first = true)
      (hrest : ∀ c ∈ rest, isWord c = true) : IsName (first :: rest)

theorem isName_of_all {first : Char} {rest : List Char}
    (h : (isNameStart first && rest.all isWord) = true) : IsName (first :: rest) := by
  rw [Bool.and_eq_true, List.all_eq_true] at h
  exact .intro h.1 h.2

theorem IsName.ne_nil {name : List Char} (h : IsName name) : name ≠ [] := by
  cases h
  simp

theorem isWord_of_isNameStart {c : Char} (h : isNameStart c = true) : isWord c = true := by
  rw [isNameStart, Bool.or_eq_true] at h
  simp only [isWord, Char.isAlphanum, Bool.or_eq_true]
  exact .inl (h.imp_left .inl)

theorem IsName.isWord {name : List Char} (h : IsName name) : ∀ c ∈ name, isWord c = true := by
  obtain ⟨hfirst, hrest⟩ := h
  rintro c (- | ⟨-, hc⟩)
  · exact isWord_of_isNameStart hfirst
  · exact hrest c hc

theorem simpleName_append {name rest : List Char} (hname : IsName name) (hrest : Stops isWord rest) :
    simpleName (name ++ rest) = name := by
  obtain ⟨hfirst, hchars⟩ := hname
  simp only [List.cons_append, simpleName, hfirst, if_true, List.cons.injEq, true_and]
  exact takeWhile_append_of_stops hchars hrest

theorem simpleName_of_stops {rest : List Char} (h : Stops isNameStart rest) : simpleName rest = [] := by
  cases rest with
  | nil => rfl
  | cons c rest => simp [simpleName, h.head]

/-- A name behind a mark that is read by `separator`. -/
inductive IsLink (separator : List Char → List Char) : List Char → Prop
  | intro {mark name : List Char} (hmark : mark ≠ [])
      (hseparator : ∀ more, separator (mark ++ more) = mark) (hstops : ∀ more, Stops isWord (mark ++ more))
      (hname : IsName name) : IsLink separator (mark ++ name)

section Further

variable {separator : List Char → List Char} {rest : List Char}

/-- Names behind marks are read as long as there are some. -/
theorem furtherNames_append {links : List (List Char)} (hlinks : ∀ link ∈ links, IsLink separator link)
    (hrest : Stops isWord rest) (hend : separator rest = []) {fuel : Nat} (hfuel : links.length ≤ fuel) :
    furtherNames separator fuel (links.flatten ++ rest) = links.flatten := by
  induction links generalizing fuel with
  | nil =>
      cases fuel with
      | zero => rfl
      | succ fuel => simp [furtherNames, hend]
  | cons link links ih =>
      cases fuel with
      | zero => simp at hfuel
      | succ fuel =>
          have hlater : ∀ other ∈ links, IsLink separator other := fun other hother =>
            hlinks other (List.mem_cons_of_mem _ hother)
          have hstops : Stops isWord (links.flatten ++ rest) := by
            cases links with
            | nil => exact hrest
            | cons other links =>
                obtain ⟨-, -, hstops, -⟩ := hlater other List.mem_cons_self
                rw [List.flatten_cons, List.append_assoc, List.append_assoc]
                exact hstops _
          have hnext := ih hlater (Nat.le_of_succ_le_succ hfuel)
          obtain ⟨hmark, hseparator, -, hname⟩ := hlinks link List.mem_cons_self
          rename_i mark name
          have hread : simpleName ((mark ++ name ++ (links.flatten ++ rest)).drop mark.length) = name := by
            rw [List.append_assoc, List.drop_left]
            exact simpleName_append hname hstops
          rw [List.flatten_cons, List.append_assoc, furtherNames]
          rw [List.append_assoc, hseparator, ← List.append_assoc, hread]
          obtain ⟨m, mark, rfl⟩ := List.exists_cons_of_ne_nil hmark
          obtain ⟨n, name, rfl⟩ := List.exists_cons_of_ne_nil hname.ne_nil
          change (m :: mark ++ n :: name) ++ furtherNames separator fuel (List.drop _ _) = _
          rw [List.drop_left, hnext]

theorem IsLink.ne_nil {link : List Char} (h : IsLink separator link) : link ≠ [] := by
  obtain ⟨hmark, -, -, -⟩ := h
  simp [hmark]

theorem length_le_length_flatten {links : List (List Char)} (h : ∀ link ∈ links, link ≠ []) :
    links.length ≤ links.flatten.length := by
  induction links with
  | nil => simp
  | cons link links ih =>
      have hlink : 0 < link.length := List.length_pos_iff.mpr (h link List.mem_cons_self)
      have hlinks := ih fun other hother => h other (List.mem_cons_of_mem _ hother)
      simp only [List.length_cons, List.flatten_cons, List.length_append]
      omega

/-- A start and names behind marks, where the names are read with a fuel of the length of the text. -/
theorem furtherNames_drop {start : List Char} {links : List (List Char)}
    (hlinks : ∀ link ∈ links, IsLink separator link) (hrest : Stops isWord rest)
    (hend : separator rest = []) :
    let text := start ++ links.flatten ++ rest
    start ++ furtherNames separator text.length (text.drop start.length) =
      start ++ links.flatten := by
  have hlength := length_le_length_flatten fun link hlink => (hlinks link hlink).ne_nil
  intro text
  rw [show text.drop start.length = links.flatten ++ rest by
    rw [show text = start ++ (links.flatten ++ rest) from List.append_assoc _ _ _, List.drop_left]]
  rw [furtherNames_append hlinks hrest hend]
  simp only [text, List.length_append]
  omega

end Further

/-- A tag name: names with backslashes between them, the last of which is the base name. -/
inductive IsTagName (base : List Char) : List Char → Prop
  | base (hname : IsName base) : IsTagName base base
  | within {space name : List Char} (hspace : IsName space) (hname : IsTagName base name) :
      IsTagName base (space ++ '\\' :: name)

namespace IsTagName

variable {base name rest : List Char}

theorem exists_links (h : IsTagName base name) :
    ∃ first links, IsName first ∧ (∀ link ∈ links, IsLink namespaceMark link) ∧
      name = first ++ List.flatten links := by
  induction h with
  | base hname => exact ⟨base, [], hname, by simp, by simp⟩
  | @within space name hspace hname ih =>
      obtain ⟨first, links, hfirst, hlinks, rfl⟩ := ih
      refine ⟨space, ('\\' :: first) :: links, hspace, ?_, by simp⟩
      rintro link (- | ⟨-, hlink⟩)
      · exact @IsLink.intro _ ['\\'] _ (by simp) (fun _ => rfl) (fun _ => .cons (by decide)) hfirst
      · exact hlinks link hlink

theorem ne_nil (h : IsTagName base name) : name ≠ [] := by
  cases h with
  | base hname => exact hname.ne_nil
  | within => simp

theorem isName (h : IsTagName base name) : IsName base := by
  induction h with
  | base hname => exact hname
  | within _ _ ih => exact ih

theorem eq_append (h : IsTagName base name) : name = base ∨ ∃ spaces, name = spaces ++ '\\' :: base := by
  induction h with
  | base => exact .inl rfl
  | @within space name _ _ ih =>
      obtain rfl | ⟨spaces, rfl⟩ := ih
      · exact .inr ⟨space, rfl⟩
      · exact .inr ⟨space ++ '\\' :: spaces, by simp⟩

theorem baseName_eq (h : IsTagName base name) : baseName name = String.ofList base := by
  have hbase : ∀ c ∈ base.reverse, (c != '\\') = true := by
    intro c hc
    rw [bne_iff_ne]
    rintro rfl
    exact absurd (h.isName.isWord _ (List.mem_reverse.mp hc)) (by decide)
  have hread : name.reverse.takeWhile (· != '\\') = base.reverse := by
    obtain rfl | ⟨spaces, rfl⟩ := h.eq_append
    · simpa using @takeWhile_append_of_stops _ _ [] hbase (by simp [Stops])
    · rw [List.reverse_append, List.reverse_cons, List.append_assoc]
      exact takeWhile_append_of_stops hbase (.cons (by decide))
  rw [baseName, afterLast, String.toList_ofList, hread, List.reverse_reverse]

end IsTagName

theorem tagName_append {base name rest : List Char} (hname : IsTagName base name)
    (hrest : Stops isWord rest) (hend : namespaceMark rest = []) : tagName (name ++ rest) = name := by
  obtain ⟨first, links, hfirst, hlinks, rfl⟩ := hname.exists_links
  have hstops : Stops isWord (links.flatten ++ rest) := by
    cases links with
    | nil => exact hrest
    | cons link links =>
        obtain ⟨-, -, hstops, -⟩ := hlinks link List.mem_cons_self
        rw [List.flatten_cons, List.append_assoc, List.append_assoc]
        exact hstops _
  have hread : simpleName (first ++ links.flatten ++ rest) = first := by
    rw [List.append_assoc]
    exact simpleName_append hfirst hstops
  rw [tagName, hread]
  simp only [List.isEmpty_iff, hfirst.ne_nil, if_false]
  exact furtherNames_drop hlinks hrest hend

/-- A character of the first part of an identifier. -/
def isPathChar (c : Char) : Bool :=
  isWord c || c == '\\'

/-- A member of an identifier: a name behind two colons or a point. -/
inductive IsMember : List Char → Prop
  | static {name : List Char} (hname : IsName name) : IsMember (':' :: ':' :: name)
  | field {name : List Char} (hname : IsName name) : IsMember ('.' :: name)

theorem IsMember.isLink {member : List Char} (h : IsMember member) : IsLink memberMark member := by
  cases h with
  | static hname =>
      exact @IsLink.intro _ [':', ':'] _ (by simp) (fun _ => rfl) (fun _ => .cons (by decide)) hname
  | field hname =>
      exact @IsLink.intro _ ['.'] _ (by simp) (fun _ => rfl) (fun _ => .cons (by decide)) hname

theorem IsMember.stops {member : List Char} (h : IsMember member) (more : List Char) :
    Stops isPathChar (member ++ more) := by
  cases h with
  | static => exact .cons (by decide)
  | field => exact .cons (by decide)

/-- An identifier: a name with backslashes in it, maybe in front of it too, and members behind it. -/
inductive IsIdentifier : List Char → Prop
  | intro {lead chars : List Char} {first : Char} {members : List (List Char)}
      (hlead : lead = [] ∨ lead = ['\\']) (hfirst : isNameStart first = true)
      (hchars : ∀ c ∈ chars, isPathChar c = true) (hmembers : ∀ member ∈ members, IsMember member) :
      IsIdentifier (lead ++ first :: chars ++ members.flatten)

theorem ne_backslash_of_isNameStart {c : Char} (h : isNameStart c = true) : c ≠ '\\' := by
  rintro rfl
  exact absurd h (by decide)

theorem identifier_append {word rest : List Char} (hword : IsIdentifier word)
    (hrest : Stops isPathChar rest) (hend : memberMark rest = []) : identifier (word ++ rest) = word := by
  obtain @⟨lead, chars, first, members, hlead, hfirst, hchars, hmembers⟩ := hword
  have hstops : Stops isPathChar (members.flatten ++ rest) := by
    cases members with
    | nil => exact hrest
    | cons member members =>
        rw [List.flatten_cons, List.append_assoc]
        exact (hmembers member List.mem_cons_self).stops _
  have hmark : namespaceMark (lead ++ (first :: chars ++ (members.flatten ++ rest))) = lead := by
    obtain rfl | rfl := hlead
    · simp only [List.nil_append, List.cons_append, namespaceMark]
      split
      · rename_i hcons
        exact absurd (List.cons.inj hcons).1 (ne_backslash_of_isNameStart hfirst)
      · rfl
    · rfl
  have hread : (chars ++ (members.flatten ++ rest)).takeWhile (fun c => isWord c || c == '\\') = chars :=
    takeWhile_append_of_stops hchars hstops
  have hword : Stops isWord rest := fun c hc => (Bool.or_eq_false_iff.mp (hrest c hc)).1
  have hmembers := @furtherNames_drop _ _ (lead ++ first :: chars) _
    (fun member hmember => (hmembers member hmember).isLink) hword hend
  rw [List.append_assoc, List.append_assoc, identifier, hmark, List.drop_left]
  simp only [List.cons_append, hfirst, if_true, hread]
  simpa only [List.append_assoc, List.cons_append] using hmembers

theorem isDecimal_of_isNameStart {c : Char} (h : isNameStart c = true) : isDecimal c = false := by
  have hdigit : c.isDigit = false ∧ c.toNat < 128 := by
    change ((decide (65 ≤ c.val ∧ c.val ≤ 90) ||
      (decide (97 ≤ c.val) && decide (c.val ≤ 122))) || c == '_') = true at h
    simp only [Bool.or_eq_true, Bool.and_eq_true, decide_eq_true_eq, beq_iff_eq,
      UInt32.le_iff_toNat_le] at h
    simp only [Char.isDigit, Bool.and_eq_false_iff, decide_eq_false_iff_not, UInt32.le_iff_toNat_le]
    change ((65 ≤ c.toNat ∧ c.toNat ≤ 90) ∨ (97 ≤ c.toNat ∧ c.toNat ≤ 122)) ∨ _ at h
    change (¬ 48 ≤ c.toNat ∨ ¬ c.toNat ≤ 57) ∧ _
    obtain h | rfl := h
    · omega
    · decide
  rw [isDecimal, digitValue?, hdigit.1, if_neg Bool.false_ne_true, if_pos hdigit.2]
  rfl

theorem signMark_cons {c : Char} {rest : List Char} (hminus : c ≠ '-') (hplus : c ≠ '+') :
    signMark (c :: rest) = [] := by
  unfold signMark
  split
  · rename_i hcons
    exact absurd (List.cons.inj hcons).1 hminus
  · rename_i hcons
    exact absurd (List.cons.inj hcons).1 hplus
  · rfl

theorem mantissa_append {digits rest : List Char} (hdigits : ∀ c ∈ digits, isDecimal c = true)
    (hrest : Stops isDecimal rest) (hpoint : rest.head? ≠ some '.') :
    mantissa (digits ++ rest) = digits := by
  have hrun : digitRun (digits ++ rest) = digits := takeWhile_append_of_stops hdigits hrest
  rw [mantissa, hrun, List.drop_left]
  split
  · simp at hpoint
  · rfl

/-- No numeral starts with a character that starts none. -/
theorem numeral_cons {c : Char} {rest : List Char} (hdigit : isDecimal c = false) (hminus : c ≠ '-')
    (hplus : c ≠ '+') (hpoint : c ≠ '.') : numeral (c :: rest) = [] := by
  have hmantissa : mantissa (c :: rest) = [] :=
    @mantissa_append [] _ (by simp) (.cons hdigit) (by simpa using hpoint)
  rw [numeral, signMark_cons hminus hplus, List.length_nil, List.drop_zero, hmantissa]
  rfl

theorem numeral_of_isIdentifier {word rest : List Char} (hword : IsIdentifier word) :
    numeral (word ++ rest) = [] := by
  obtain @⟨lead, chars, first, members, hlead, hfirst, -, -⟩ := hword
  obtain rfl | rfl := hlead
  · refine numeral_cons (isDecimal_of_isNameStart hfirst) ?_ ?_ ?_ <;>
      (rintro rfl; exact absurd hfirst (by decide))
  · exact numeral_cons (by decide) (by decide) (by decide) (by decide)

/-- A decimal numeral of a whole number, with digits of any script. -/
inductive IsNumeral : Int → List Char → Prop
  | intro {negative : Bool} {sign digits : List Char}
      (hsign : negative = true ∧ sign = ['-'] ∨ negative = false ∧ (sign = [] ∨ sign = ['+']))
      (hdigits : ∀ c ∈ digits, isDecimal c = true) (hsome : digits ≠ [])
      (hlength : digits.length ≤ Number.maxDigits) :
      IsNumeral (if negative then -(digitsValue digits : Int) else digitsValue digits) (sign ++ digits)

theorem signMark_append {sign digits : List Char} {negative : Bool}
    (hsign : negative = true ∧ sign = ['-'] ∨ negative = false ∧ (sign = [] ∨ sign = ['+']))
    (hdigits : ∀ c ∈ digits, isDecimal c = true) (hsome : digits ≠ []) (rest : List Char) :
    signMark (sign ++ (digits ++ rest)) = sign ∧
      Number.takeSign (sign ++ digits) = (negative, digits) := by
  obtain ⟨c, digits, rfl⟩ := List.exists_cons_of_ne_nil hsome
  have hc : isDecimal c = true := hdigits c List.mem_cons_self
  have hminus : c ≠ '-' := by
    rintro rfl
    exact absurd hc (by decide)
  have hplus : c ≠ '+' := by
    rintro rfl
    exact absurd hc (by decide)
  obtain ⟨rfl, rfl⟩ | ⟨rfl, rfl | rfl⟩ := hsign
  · exact ⟨rfl, rfl⟩
  · refine ⟨signMark_cons hminus hplus, ?_⟩
    unfold Number.takeSign
    split
    · rename_i hcons
      exact absurd (List.cons.inj hcons).1 hminus
    · rename_i hcons
      exact absurd (List.cons.inj hcons).1 hplus
    · rfl
  · exact ⟨rfl, rfl⟩

theorem numeral_append {value : Int} {text rest : List Char} (htext : IsNumeral value text)
    (hdigit : Stops isDecimal rest) (hpoint : rest.head? ≠ some '.') (hexponent : exponent rest = []) :
    numeral (text ++ rest) = text := by
  obtain @⟨negative, sign, digits, hsign, hdigits, hsome, -⟩ := htext
  have hempty : digits.isEmpty = false := by simpa using hsome
  rw [numeral, List.append_assoc, (signMark_append hsign hdigits hsome rest).1, List.drop_left,
    mantissa_append hdigits hdigit hpoint]
  simp only [hempty, Bool.false_eq_true, if_false]
  rw [← List.append_assoc, List.drop_left, hexponent, List.append_nil]

theorem IsNumeral.ne_nil {value : Int} {text : List Char} (h : IsNumeral value text) : text ≠ [] := by
  obtain ⟨-, -, hsome, -⟩ := h
  simp [hsome]

/-- The characters of a numeral start neither a text in quotes nor braces nor a tag. -/
theorem IsNumeral.head_isDecimal {value : Int} {text : List Char} (h : IsNumeral value text) :
    ∃ c rest, text = c :: rest ∧ (isDecimal c = true ∨ c = '-' ∨ c = '+') := by
  obtain @⟨negative, sign, digits, hsign, hdigits, hsome, -⟩ := h
  obtain ⟨c, digits, rfl⟩ := List.exists_cons_of_ne_nil hsome
  obtain ⟨-, rfl⟩ | ⟨-, rfl | rfl⟩ := hsign
  · exact ⟨_, _, rfl, .inr (.inl rfl)⟩
  · exact ⟨_, _, rfl, .inl (hdigits c List.mem_cons_self)⟩
  · exact ⟨_, _, rfl, .inr (.inr rfl)⟩

theorem numeralValue_of_isNumeral {value : Int} {text : List Char} (h : IsNumeral value text) :
    Reader.numeralValue text = .ok (.number (.int value)) := by
  obtain @⟨negative, sign, digits, hsign, hdigits, hsome, hlength⟩ := h
  have hplain : ((sign ++ digits).any fun c => c == '.' || c == 'e' || c == 'E') = false := by
    rw [List.any_eq_false]
    intro c hc hmark
    have hc : isDecimal c = true ∨ c = '-' ∨ c = '+' := by
      obtain hc | hc := List.mem_append.mp hc
      · obtain ⟨-, rfl⟩ | ⟨-, rfl | rfl⟩ := hsign <;> simp at hc <;> simp [hc]
      · exact .inl (hdigits c hc)
    simp only [Bool.or_eq_true, beq_iff_eq] at hmark
    obtain (rfl | rfl) | rfl := hmark <;> revert hc <;> decide
  rw [Reader.numeralValue, hplain, if_neg Bool.false_ne_true,
    (signMark_append hsign hdigits hsome []).2]
  simp only [Number.ofDigits, if_neg (Nat.not_lt.mpr hlength)]

/-- How the characters of a text stand between double quotes: a quote behind a backslash or doubled, a
backslash behind a backslash, and all others as they are. -/
inductive Quotes : List Char → List Char → Prop
  | nil : Quotes [] []
  | escapedQuote {body text : List Char} (h : Quotes body text) : Quotes ('"' :: body) ('\\' :: '"' :: text)
  | doubledQuote {body text : List Char} (h : Quotes body text) : Quotes ('"' :: body) ('"' :: '"' :: text)
  | backslash {body text : List Char} (h : Quotes body text) : Quotes ('\\' :: body) ('\\' :: '\\' :: text)
  | plain {c : Char} {body text : List Char} (hquote : c ≠ '"') (hbackslash : c ≠ '\\')
      (h : Quotes body text) : Quotes (c :: body) (c :: text)

theorem stringBody_append {body text rest : List Char} (h : Quotes body text)
    (hrest : rest.head? ≠ some '"') :
    stringBody (text ++ '"' :: rest) = some (body, text.length + 1) := by
  induction h with
  | nil =>
      cases rest with
      | nil => rfl
      | cons c rest =>
          have hc : c ≠ '"' := by simpa using hrest
          simp [stringBody, hc]
  | escapedQuote _ ih => simp [stringBody, ih]
  | doubledQuote _ ih => simp [stringBody, ih]
  | backslash _ ih => simp [stringBody, ih]
  | plain hquote hbackslash _ ih => simp [stringBody, ih, hquote, hbackslash]

end DocCompiler.Annotation
