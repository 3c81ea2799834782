import DocCompiler.Proofs.Text.Line
import DocCompiler.Proofs.Text.Pattern
import DocCompiler.Source.Detector

/-!
Bracketed parts of program texts. What stands in one is made of single characters, quoted texts, comments and
further bracketed parts; the scan of it ends right behind the bracket that closes it, and in every text it ends
within the text.
-/

namespace DocCompiler

open Text

namespace Bracket

/-- The brackets that open a bracketed part. -/
def openings : List Char :=
  ['\x7b', '(', '[']

/-- What may stand between two quotes: no line break, and a quote or a backslash only behind a backslash, which
takes away the meaning of any character. -/
inductive Quoted (quote : Char) : List Char → Prop
  | nil : Quoted quote []
  | plain {c : Char} {rest : List Char} (hquote : c ≠ quote) (hescape : c ≠ '\\') (hnewline : c ≠ '\n')
      (hrest : Quoted quote rest) : Quoted quote (c :: rest)
  | escaped {rest : List Char} (c : Char) (hrest : Quoted quote rest) : Quoted quote ('\\' :: c :: rest)

/-- What may stand between an opening bracket and the bracket that closes it. -/
inductive Body (opening : Char) : List Char → Prop
  | nil : Body opening []
  | plain {c : Char} {rest : List Char} (hc : c ∉ ['"', '\'', '/', opening, closing opening])
      (hrest : Body opening rest) : Body opening (c :: rest)
  /-- A slash that starts no comment. -/
  | slash {rest : List Char} (hstar : rest.head? ≠ some '*') (hslash : rest.head? ≠ some '/')
      (hrest : Body opening rest) : Body opening ('/' :: rest)
  | quoted {quote : Char} {text rest : List Char} (hquote : quote = '"' ∨ quote = '\'') (htext : Quoted quote text)
      (hrest : Body opening rest) : Body opening (quote :: (text ++ quote :: rest))
  /-- A comment that ends with the first mark that closes it. -/
  | block {text rest : List Char} (htext : ¬ ['*', '/'] <:+: text) (hrest : Body opening rest) :
      Body opening ('/' :: '*' :: (text ++ '*' :: '/' :: rest))
  /-- A comment that ends with its line. -/
  | line {text rest : List Char} (htext : '\n' ∉ text) (hrest : Body opening rest) :
      Body opening ('/' :: '/' :: (text ++ '\n' :: rest))
  | nested {inner rest : List Char} (hinner : Body opening inner) (hrest : Body opening rest) :
      Body opening (opening :: (inner ++ closing opening :: rest))

section Scan

variable {opening c quote : Char} {depth : Nat} {text rest : List Char}

theorem extent_mark (opening : Char) (next : Mode) (depth : Nat) (c : Char) (rest : List Char) :
    extent opening (.mark next) depth (c :: rest) = 1 + extent opening next depth rest :=
  rfl

theorem extent_escaped (opening quote : Char) (depth : Nat) (c : Char) (rest : List Char) :
    extent opening (.escaped quote) depth (c :: rest) = 1 + extent opening (.quoted quote) depth rest :=
  rfl

theorem extent_quote (hquote : quote = '"' ∨ quote = '\'') :
    extent opening .code depth (quote :: rest) = 1 + extent opening (.quoted quote) depth rest := by
  have hmark : (quote == '"' || quote == '\'') = true := by simpa using hquote
  rw [extent, if_pos hmark]

/-- A quoted text is passed over up to the quote that ends it. -/
theorem extent_quoted (hquote : quote ≠ '\\') (htext : Quoted quote text) :
    extent opening (.quoted quote) depth (text ++ quote :: rest) =
      text.length + 1 + extent opening .code depth rest := by
  induction htext with
  | nil =>
      have hescape : (quote == '\\') = false := by simpa using hquote
      simp only [List.nil_append, extent, hescape, BEq.rfl, Bool.true_or, Bool.false_eq_true, if_false, if_true,
        List.length_nil, Nat.zero_add]
  | @plain c more hne hescape hnewline _ ih =>
      have hends : (c == quote || c == '\n') = false := by simp [hne, hnewline]
      have hbackslash : (c == '\\') = false := by simpa using hescape
      rw [List.cons_append, extent, hbackslash, hends]
      simp only [Bool.false_eq_true, if_false, ih, List.length_cons]
      omega
  | escaped c _ ih =>
      rw [List.cons_append, List.cons_append, extent, if_pos BEq.rfl, extent_escaped, ih]
      simp only [List.length_cons]
      omega

/-- A comment between marks is passed over with the first mark that closes it. -/
theorem extent_block (htext : ¬ ['*', '/'] <:+: text) :
    extent opening .block depth (text ++ '*' :: '/' :: rest) = text.length + 2 + extent opening .code depth rest := by
  induction text with
  | nil =>
      rw [List.nil_append, extent, List.length_nil]
      change 1 + (1 + extent opening .code depth rest) = _
      omega
  | cons c text ih =>
      have hmore : ¬ ['*', '/'] <:+: text := fun h => htext (List.infix_cons_iff.mpr (.inr h))
      have hopen : ¬ (c == '*' && (text ++ '*' :: '/' :: rest).head? == some '/') = true := by
        rw [Bool.and_eq_true, beq_iff_eq, beq_iff_eq]
        rintro ⟨rfl, hslash⟩
        cases text with
        | nil => simp at hslash
        | cons next text =>
            obtain rfl : next = '/' := by simpa using hslash
            exact htext (List.prefix_append ['*', '/'] text).isInfix
      rw [List.cons_append, extent, if_neg hopen, ih hmore, List.length_cons]
      omega

/-- A comment on a line is passed over with the end of the line. -/
theorem extent_line (htext : '\n' ∉ text) :
    extent opening .line depth (text ++ '\n' :: rest) = text.length + 1 + extent opening .code depth rest := by
  induction text with
  | nil =>
      rw [List.nil_append, extent, if_pos BEq.rfl, List.length_nil]
  | cons c text ih =>
      rw [List.mem_cons, not_or] at htext
      have hline : ¬ (c == '\n') = true := by simpa using Ne.symm htext.1
      rw [List.cons_append, extent, if_neg hline, ih htext.2, List.length_cons]
      omega

theorem extent_comment (opening : Char) (depth : Nat) (rest : List Char) :
    extent opening .code depth ('/' :: '*' :: rest) = 2 + extent opening .block depth rest := by
  rw [extent, if_neg (by decide), if_pos (by simp), extent_mark]
  omega

theorem extent_lineComment (opening : Char) (depth : Nat) (rest : List Char) :
    extent opening .code depth ('/' :: '/' :: rest) = 2 + extent opening .line depth rest := by
  rw [extent, if_neg (by decide), if_neg (by simp), if_pos (by simp), extent_mark]
  omega

/-- A character that starts nothing is passed over. -/
theorem extent_plain (hquotes : c ≠ '"' ∧ c ≠ '\'') (hcomment : c = '/' → rest.head? ≠ some '*' ∧ rest.head? ≠ some '/')
    (hbrackets : c ≠ opening ∧ c ≠ closing opening) :
    extent opening .code depth (c :: rest) = 1 + extent opening .code depth rest := by
  have hblock : ¬ (c == '/' && rest.head? == some '*') = true := by
    rw [Bool.and_eq_true, beq_iff_eq, beq_iff_eq]
    exact fun h => (hcomment h.1).1 h.2
  have hline : ¬ (c == '/' && rest.head? == some '/') = true := by
    rw [Bool.and_eq_true, beq_iff_eq, beq_iff_eq]
    exact fun h => (hcomment h.1).2 h.2
  rw [extent, if_neg (by simpa using hquotes), if_neg hblock, if_neg hline, if_neg (by simpa using hbrackets.1),
    if_neg (by simpa using hbrackets.2)]

/-- The brackets of a kind are different, and neither quotes nor marks of comments. -/
structure IsKind (opening : Char) : Prop where
  distinct : closing opening ≠ opening
  openingQuotes : opening ≠ '"' ∧ opening ≠ '\''
  closingQuotes : closing opening ≠ '"' ∧ closing opening ≠ '\''
  openingComment : opening ≠ '/'
  closingComment : closing opening ≠ '*' ∧ closing opening ≠ '/'

theorem isKind_of_mem_openings (h : opening ∈ openings) : IsKind opening := by
  simp only [openings, List.mem_cons, List.not_mem_nil, or_false] at h
  rcases h with rfl | rfl | rfl <;> constructor <;> decide

variable (hkind : IsKind opening)

include hkind

theorem extent_opening :
    extent opening .code depth (opening :: rest) = 1 + extent opening .code (depth + 1) rest := by
  rw [extent, if_neg (by simpa using hkind.openingQuotes), if_neg (by simp [hkind.openingComment]),
    if_neg (by simp [hkind.openingComment]), if_pos BEq.rfl]

/-- A closing bracket ends the scan where it closes the last open one. -/
theorem extent_closing :
    extent opening .code depth (closing opening :: rest) =
      if depth ≤ 1 then 1 else 1 + extent opening .code (depth - 1) rest := by
  rw [extent, if_neg (by simpa using hkind.closingQuotes), if_neg (by simp [hkind.closingComment]),
    if_neg (by simp [hkind.closingComment]), if_neg (by simpa using hkind.distinct), if_pos BEq.rfl]

/-- The scan passes over the whole of a body on every depth, unless what stands behind it makes its last slash the
start of a comment. -/
theorem extent_body {body behind : List Char} (h : Body opening body) (hdepth : 0 < depth)
    (hstar : behind.head? ≠ some '*') (hslash : behind.head? ≠ some '/') :
    extent opening .code depth (body ++ behind) = body.length + extent opening .code depth behind := by
  induction h generalizing depth behind with
  | nil => simp
  | @plain c rest hc _ ih =>
      simp only [List.mem_cons, List.not_mem_nil, or_false, not_or] at hc
      rw [List.cons_append, extent_plain ⟨hc.1, hc.2.1⟩ (fun h => absurd h hc.2.2.1) hc.2.2.2, ih hdepth hstar hslash,
        List.length_cons]
      omega
  | @slash rest hnoStar hnoSlash _ ih =>
      have hcomment : (rest ++ behind).head? ≠ some '*' ∧ (rest ++ behind).head? ≠ some '/' := by
        cases rest with
        | nil => exact ⟨hstar, hslash⟩
        | cons next rest => exact ⟨hnoStar, hnoSlash⟩
      rw [List.cons_append, extent_plain ⟨by decide, by decide⟩ (fun _ => hcomment)
        ⟨hkind.openingComment.symm, hkind.closingComment.2.symm⟩, ih hdepth hstar hslash, List.length_cons]
      omega
  | @quoted quote text rest hquote htext _ ih =>
      have hescape : quote ≠ '\\' := by
        rcases hquote with rfl | rfl <;> decide
      rw [List.cons_append, List.append_assoc, List.cons_append, extent_quote hquote, extent_quoted hescape htext,
        ih hdepth hstar hslash]
      simp only [List.length_cons, List.length_append]
      omega
  | @block text rest htext _ ih =>
      rw [List.cons_append, List.cons_append, List.append_assoc, List.cons_append, List.cons_append, extent_comment,
        extent_block htext, ih hdepth hstar hslash]
      simp only [List.length_cons, List.length_append]
      omega
  | @line text rest htext _ ih =>
      rw [List.cons_append, List.cons_append, List.append_assoc, List.cons_append, extent_lineComment,
        extent_line htext, ih hdepth hstar hslash]
      simp only [List.length_cons, List.length_append]
      omega
  | @nested inner rest _ _ ihInner ih =>
      -- Inside, one more bracket is open, and the one that closes it follows.
      have hinner := @ihInner (depth + 1) (closing opening :: (rest ++ behind)) (Nat.succ_pos depth)
        (by simpa using hkind.closingComment.1) (by simpa using hkind.closingComment.2)
      have hclosing : ¬ depth + 1 ≤ 1 := by omega
      rw [List.cons_append, List.append_assoc, List.cons_append, extent_opening hkind, hinner, extent_closing hkind,
        if_neg hclosing, Nat.add_sub_cancel, ih hdepth hstar hslash]
      simp only [List.length_cons, List.length_append]
      omega

/-- A bracketed part with a body ends right behind the bracket that closes it. -/
theorem matchExtent_body {body behind : List Char} (h : Body opening body) :
    matchExtent (opening :: (body ++ closing opening :: behind)) = body.length + 2 := by
  rw [matchExtent, extent_body hkind h Nat.one_pos (by simpa using hkind.closingComment.1)
    (by simpa using hkind.closingComment.2), extent_closing hkind, if_pos (Nat.le_refl 1)]
  omega

/-- A text has no more than one body behind its first bracket. -/
theorem Body.eq_of_append_eq {body other behind after : List Char} (h : Body opening body) (hother : Body opening other)
    (htext : body ++ closing opening :: behind = other ++ closing opening :: after) : body = other := by
  have hlength : body.length = other.length := by
    have hextent : matchExtent (opening :: (body ++ closing opening :: behind)) = body.length + 2 :=
      matchExtent_body hkind h
    rw [htext, matchExtent_body hkind hother] at hextent
    omega
  exact (List.append_inj htext hlength).1

end Scan

/-- A bracketed part goes on to the end of the text or ends with the bracket that closes it. -/
theorem extent_spec (opening : Char) (mode : Mode) (depth : Nat) (text : List Char) :
    extent opening mode depth text = text.length ∨
      ∃ inner after, text = inner ++ closing opening :: after ∧
        extent opening mode depth text = inner.length + 1 := by
  induction text generalizing mode depth with
  | nil => exact .inl rfl
  | cons c rest ih =>
      have hmore (next : Mode) (depth : Nat) :
          1 + extent opening next depth rest = (c :: rest).length ∨
            ∃ inner after, c :: rest = inner ++ closing opening :: after ∧
              1 + extent opening next depth rest = inner.length + 1 := by
        rcases ih next depth with h | ⟨inner, after, hrest, h⟩
        · exact .inl (by rw [h, List.length_cons, Nat.add_comm])
        · exact .inr ⟨c :: inner, after, by rw [hrest]; rfl, by rw [h, List.length_cons]; omega⟩
      cases mode with
      | code =>
          rw [extent]
          split_ifs with hquote hblock hline hopens hcloses hlast
          · exact hmore _ _
          · exact hmore _ _
          · exact hmore _ _
          · exact hmore _ _
          · exact .inr ⟨[], rest, by rw [eq_of_beq hcloses]; rfl, rfl⟩
          · exact hmore _ _
          · exact hmore _ _
      | _ => exact hmore _ _

theorem matchExtent_spec (opening : Char) (rest : List Char) :
    matchExtent (opening :: rest) = rest.length + 1 ∨
      ∃ inner after, rest = inner ++ closing opening :: after ∧
        matchExtent (opening :: rest) = inner.length + 2 := by
  rw [matchExtent]
  rcases extent_spec opening .code 1 rest with h | ⟨inner, after, hrest, h⟩
  · exact .inl (by rw [h, Nat.add_comm])
  · exact .inr ⟨inner, after, hrest, by rw [h]; omega⟩

/-- The offset behind the bracket that closes the one at an offset of a text. -/
def closeOffset (text : List Char) (start : Nat) : Nat :=
  start + matchExtent (text.drop start)

theorem closeOffset_body {opening : Char} (hkind : IsKind opening) {front body behind : List Char}
    (h : Body opening body) :
    closeOffset (front ++ opening :: (body ++ closing opening :: behind)) front.length =
      (front ++ opening :: (body ++ [closing opening])).length := by
  rw [closeOffset, List.drop_left, matchExtent_body hkind h]
  simp only [List.length_append, List.length_cons, List.length_nil]

/-- A bracketed part takes at least its first bracket, and it stays in the text. -/
theorem closeOffset_within {text : List Char} {start : Nat} {opening : Char} (h : text[start]? = some opening) :
    start < closeOffset text start ∧ closeOffset text start ≤ text.length := by
  obtain ⟨hlt, hget⟩ := List.getElem?_eq_some_iff.mp h
  have hdrop : text.drop start = opening :: text.drop (start + 1) := by
    rw [← hget, List.getElem_cons_drop]
  have hlength := congrArg List.length hdrop
  rw [List.length_drop, List.length_cons] at hlength
  rw [closeOffset, hdrop]
  rcases matchExtent_spec opening (text.drop (start + 1)) with hend | ⟨inner, after, hrest, hend⟩
  · omega
  · have hinner := congrArg List.length hrest
    rw [List.length_append, List.length_cons] at hinner
    omega

/-- Brackets are matched along the lexical structure of a text: quoted texts, comments and bracketed parts of the
same kind are passed over as a whole, whatever stands around, so that a bracketed part ends right behind the
bracket that closes it. In every text the scan goes forward from the bracket and stays in the text. -/
theorem closeOffset_matches {opening : Char} (hopening : opening ∈ openings) :
    (∀ front body behind, Body opening body →
      closeOffset (front ++ opening :: (body ++ closing opening :: behind)) front.length =
        (front ++ opening :: (body ++ [closing opening])).length) ∧
    ∀ (text : List Char) (start : Nat), text[start]? = some opening →
      start < closeOffset text start ∧ closeOffset text start ≤ text.length :=
  ⟨fun _ _ _ h => closeOffset_body (isKind_of_mem_openings hopening) h, fun _ _ h => closeOffset_within h⟩

/-- The general theorem for a body of a type with a bracket in a quoted text and one in a comment in braces, and
for a text that breaks off in a comment. -/
theorem closeOffset_matches_braces :
    let body := "'\x7d'\x7b/*\x7d*/\x7d".toList
    '\x7b' ∈ openings ∧ Body '\x7b' body ∧
      closeOffset ("A".toList ++ '\x7b' :: (body ++ '\x7d' :: "B".toList)) 1 = 13 ∧
      "\x7b/*".toList[0]? = some '\x7b' ∧ 0 < closeOffset "\x7b/*".toList 0 ∧ closeOffset "\x7b/*".toList 0 ≤ 3 := by
  intro body
  have hopening : '\x7b' ∈ openings := by decide
  have hinner : Body '\x7b' "/*\x7d*/".toList := @Body.block '\x7b' ['\x7d'] [] (by decide) .nil
  have hbody : Body '\x7b' body :=
    @Body.quoted '\x7b' '\'' ['\x7d'] _ (.inr rfl) (.plain (by decide) (by decide) (by decide) .nil)
      (@Body.nested '\x7b' "/*\x7d*/".toList [] hinner .nil)
  obtain ⟨hmatches, hwithin⟩ := closeOffset_matches hopening
  exact ⟨hopening, hbody, hmatches "A".toList body "B".toList hbody, rfl, hwithin "\x7b/*".toList 0 rfl⟩

end Bracket

namespace Detector

/-- The extent of a type ends behind the bracket that closes its body, which opens with the first brace behind the
declaration. -/
theorem exists_brace_of_mem_typeSpansFrom {pattern : Pattern} {whole text : List Char} {resume offset : Nat}
    {atLineStart : Bool} (htext : whole.drop offset = text) {span : TypeSpan}
    (h : span ∈ typeSpansFrom pattern resume offset atLineStart text) :
    ∃ start, span.start ≤ start ∧ whole[start]? = some '\x7b' ∧ span.stop = Bracket.closeOffset whole start := by
  induction text generalizing resume offset atLineStart with
  | nil => cases h
  | cons c rest ih =>
      have hrest : whole.drop (offset + 1) = rest := by
        rw [← List.drop_drop, htext]
        rfl
      rw [typeSpansFrom] at h
      split at h
      · exact ih hrest h
      · rename_i found hfound
        have hmatch := (Option.ite_none_right_eq_some.mp hfound).2
        obtain ⟨part, -, hpart, htaken⟩ := Pattern.exists_of_matchStart? hmatch
        dsimp only at h
        split at h
        · exact ih hrest h
        · rename_i body hne
          rcases List.mem_cons.mp h with rfl | hlater
          · -- The body of the type is the rest of the text from its brace on.
            have hdrop : whole.drop (offset + found.taken + (found.rest.takeWhile (· != '\x7b')).length) =
                found.rest.dropWhile (· != '\x7b') := by
              rw [← List.drop_drop, ← List.drop_drop, htext, hpart, htaken, List.drop_left, drop_length_takeWhile]
            refine ⟨offset + found.taken + (found.rest.takeWhile (· != '\x7b')).length, ?_, ?_, ?_⟩
            · dsimp only
              omega
            · rw [← List.head?_drop, hdrop]
              rw [drop_length_takeWhile] at hne
              obtain ⟨first, more, hfirst⟩ := List.exists_cons_of_ne_nil hne
              have hbrace := stops_dropWhile (· != '\x7b') found.rest first (by rw [hfirst]; rfl)
              rw [hfirst, List.head?_cons, show first = '\x7b' by simpa using hbrace]
            · rw [Bracket.closeOffset, hdrop, drop_length_takeWhile]
          · exact ih hrest hlater

/-- Each type of a text takes some of it, up to the bracket that closes its body. -/
theorem stop_of_mem_typeSpans {detector : Detector} {text : List Char} {span : TypeSpan}
    (h : span ∈ detector.typeSpans text) :
    (∃ start, span.start ≤ start ∧ text[start]? = some '\x7b' ∧ span.stop = Bracket.closeOffset text start) ∧
      span.start < span.stop ∧ span.stop ≤ text.length := by
  obtain ⟨start, hstart, hbrace, hstop⟩ := exists_brace_of_mem_typeSpansFrom List.drop_zero h
  obtain ⟨hlt, hle⟩ := Bracket.closeOffset_within hbrace
  exact ⟨⟨start, hstart, hbrace, hstop⟩, by omega, by omega⟩

end Detector

end DocCompiler
