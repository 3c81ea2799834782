import DocCompiler.Proofs.Source.Bracket
import DocCompiler.Proofs.Source.Place
import DocCompiler.Proofs.Text.Pattern
import DocCompiler.Source.Language

/-!
The bodies of types. A type that is declared behind a doc comment, at the start of a line, is among the types
that are found in the whole text: no other declaration runs into its line.
-/

namespace DocCompiler

open Text

namespace Detector

/-- A character that may stand in the declaration of a type up to its name. -/
def isTypeChar (c : Char) : Bool :=
  isBlank c || isWord c || c == '$'

/-- A text behind which no declaration of a type is under way when a line starts: behind its last character that
no such declaration has, all further lines are blank. -/
def Fenced (text : List Char) : Prop :=
  ∃ head mark tail, text = head ++ mark :: tail ∧ isTypeChar mark = false ∧
    ∀ lines rest, tail = lines ++ '\n' :: rest → ∀ c ∈ rest, isBlank c = true

theorem isTypeChar_of_isBlank {c : Char} (h : isBlank c = true) : isTypeChar c = true := by
  simp [isTypeChar, h]

theorem Fenced.append {text blanks : List Char} (h : Fenced text) (hblanks : ∀ c ∈ blanks, isBlank c = true) :
    Fenced (text ++ blanks) := by
  obtain ⟨head, mark, tail, rfl, hmark, htail⟩ := h
  refine ⟨head, mark, tail ++ blanks, by simp, hmark, fun lines rest heq => ?_⟩
  rcases List.append_eq_append_iff.mp heq with ⟨more, rfl, hmore⟩ | ⟨more, rfl, hmore⟩
  · intro c hc
    exact hblanks c (by simp [hmore, hc])
  · cases more with
    | nil =>
        obtain rfl : '\n' :: rest = blanks := hmore
        exact fun c hc => hblanks c (by simp [hc])
    | cons first more =>
        obtain ⟨rfl, rfl⟩ := List.cons.inj hmore
        exact List.forall_mem_append.mpr ⟨htail lines more rfl, hblanks⟩

theorem Fenced.of_append {text blanks : List Char} (h : Fenced (text ++ blanks))
    (hblanks : ∀ c ∈ blanks, isBlank c = true) : Fenced text := by
  obtain ⟨head, mark, tail, heq, hmark, htail⟩ := h
  have hmissing : mark ∉ blanks := by
    intro hmember
    rw [isTypeChar_of_isBlank (hblanks mark hmember)] at hmark
    cases hmark
  rcases List.append_eq_append_iff.mp heq with ⟨more, -, hmore⟩ | ⟨more, rfl, hmore⟩
  · exact absurd (by simp [hmore]) hmissing
  · cases more with
    | nil =>
        obtain rfl : mark :: tail = blanks := hmore
        exact absurd (by simp) hmissing
    | cons first more =>
        obtain ⟨rfl, rfl⟩ := List.cons.inj hmore
        refine ⟨head, mark, more, rfl, hmark, fun lines rest hlines c hc => ?_⟩
        exact htail lines (rest ++ blanks) (by rw [hlines]; simp) c (by simp [hc])

theorem fenced_concat (head : List Char) {mark : Char} (h : isTypeChar mark = false) : Fenced (head ++ [mark]) :=
  ⟨head, mark, [], rfl, h, fun lines rest heq => by simp at heq⟩

theorem fenced_comment {comment : DocComment} {text before after : List Char}
    (h : comment.Within 0 text before after) :
    comment.stop ≤ text.length ∧ Fenced (text.take comment.stop) := by
  have htext : text = before ++ '/' :: '*' :: '*' :: (comment.inner ++ ['*']) ++ ['/'] ++ after := by
    simpa using h.text_eq
  have hlength : (before ++ '/' :: '*' :: '*' :: (comment.inner ++ ['*']) ++ ['/']).length = comment.stop := by
    rw [h.stop_eq, h.start_eq]
    simp only [List.length_append, List.length_cons, List.length_nil]
    omega
  rw [htext, ← hlength, List.take_left]
  exact ⟨(List.prefix_append _ after).length_le, fenced_concat _ (by decide)⟩

/-- A pattern of decorations: what it matches ends with an opening bracket, or is a mark with a word on its line. -/
def Decorates (pattern : Pattern) : Prop :=
  ∀ part groups, pattern.Matches part groups →
    (∃ lead opening, part = lead ++ [opening] ∧ (opening = '(' ∨ opening = '[')) ∨
      ∃ mark word, part = mark :: word ∧ isTypeChar mark = false ∧ '\n' ∉ word

/-- How far a decoration reaches, with its bracketed arguments. -/
def decorationExtent (found : MatchState) (text : List Char) : Nat :=
  let last := text.drop (found.taken - 1)
  let opens := last.head? == some '(' || last.head? == some '['
  if opens && !found.rest.isEmpty then found.taken - 1 + Bracket.matchExtent last else found.taken

section Decoration

variable {pattern : Pattern} {text : List Char} {found : MatchState}

/-- The arguments of a decoration belong to it. -/
theorem decorationExtent_eq {last : Char} (hlast : text.drop (found.taken - 1) = last :: found.rest) :
    decorationExtent found text =
      if (last = '(' ∨ last = '[') ∧ found.rest ≠ [] then
        found.taken - 1 + Bracket.matchExtent (last :: found.rest)
      else found.taken := by
  simp [decorationExtent, hlast]

theorem decoration_spec (hpattern : Decorates pattern) (hfound : pattern.matchStart? text = some found) :
    ∃ part rest, text = part ++ rest ∧ part.length = decorationExtent found text ∧
      (rest ≠ [] → ∀ front, Fenced (front ++ part)) := by
  obtain ⟨part, hmatch, htext, htaken⟩ := Pattern.exists_of_matchStart? hfound
  have hshape := hpattern part _ hmatch
  obtain ⟨lead, last, rfl⟩ : ∃ lead last, part = lead ++ [last] := by
    rcases hshape with ⟨lead, opening, rfl, -⟩ | ⟨mark, word, rfl, -⟩
    · exact ⟨lead, opening, rfl⟩
    · exact ⟨_, _, (List.dropLast_append_getLast (by simp)).symm⟩
  have hdrop : text.drop (found.taken - 1) = last :: found.rest := by
    rw [htext, htaken, List.length_append, List.length_singleton, Nat.add_sub_cancel, List.append_assoc]
    exact List.drop_left
  rw [decorationExtent_eq hdrop]
  by_cases hopens : last = '(' ∨ last = '['
  · have hclosing : isTypeChar (Bracket.closing last) = false := by
      rcases hopens with rfl | rfl <;> decide
    cases hrest : found.rest with
    | nil =>
        refine ⟨lead ++ [last], [], by rw [htext, hrest], ?_, fun h => absurd rfl h⟩
        rw [if_neg fun h => h.2 rfl, htaken]
    | cons next more =>
        rw [if_pos ⟨hopens, by simp⟩, htaken, List.length_append, List.length_singleton, Nat.add_sub_cancel]
        rcases Bracket.matchExtent_spec last (next :: more) with h | ⟨inner, after, hmore, h⟩
        · refine ⟨text, [], (List.append_nil _).symm, ?_, fun h => absurd rfl h⟩
          rw [h, htext, hrest]
          simp
        · refine ⟨lead ++ last :: inner ++ [Bracket.closing last], after, ?_, ?_, fun _ front => ?_⟩
          · rw [htext, hrest, hmore]
            simp
          · rw [h]
            simp
          · rw [← List.append_assoc]
            exact fenced_concat _ hclosing
  · rw [if_neg fun h => hopens h.1]
    refine ⟨lead ++ [last], found.rest, htext, htaken.symm, fun _ front => ?_⟩
    rcases hshape with ⟨other, opening, heq, hopening⟩ | ⟨mark, word, heq, hmark, hword⟩
    · obtain ⟨-, hlast⟩ := List.append_inj' heq rfl
      exact absurd (List.singleton_inj.mp hlast ▸ hopening) hopens
    · refine ⟨front, mark, word, by rw [heq], hmark, fun lines rest hlines => ?_⟩
      exact absurd (by simp [hlines]) hword

theorem skipDecorationsFrom_succ {fuel offset : Nat} (hfound : pattern.matchStart? text = some found) :
    skipDecorationsFrom pattern (fuel + 1) offset text =
      skipDecorationsFrom pattern fuel
        (offset + decorationExtent found text + ((text.drop (decorationExtent found text)).takeWhile isBlank).length)
        (text.drop (decorationExtent found text +
          ((text.drop (decorationExtent found text)).takeWhile isBlank).length)) := by
  rw [skipDecorationsFrom, hfound]
  rfl

/-- The text behind decorations, and behind the blanks before them, is empty or starts with no blank; up to there
it is fenced. -/
theorem skipDecorationsFrom_spec (hpattern : Decorates pattern) (fuel : Nat) {front text : List Char}
    (hfront : text ≠ [] → Fenced front) (htext : Stops isBlank text) :
    ∃ part rest, text = part ++ rest ∧
      skipDecorationsFrom pattern fuel front.length text = (front ++ part).length ∧
      (rest ≠ [] → Fenced (front ++ part)) ∧ Stops isBlank rest := by
  induction fuel generalizing front text with
  | zero => exact ⟨[], text, rfl, by rw [List.append_nil]; rfl, by rwa [List.append_nil], htext⟩
  | succ fuel ih =>
      cases hfound : pattern.matchStart? text with
      | none =>
          refine ⟨[], text, rfl, ?_, by rwa [List.append_nil], htext⟩
          rw [skipDecorationsFrom, hfound, List.append_nil]
      | some found =>
          obtain ⟨part, rest, htext, hlength, hpart⟩ := decoration_spec hpattern hfound
          have hrest : rest = rest.takeWhile isBlank ++ rest.dropWhile isBlank :=
            List.takeWhile_append_dropWhile.symm
          have hblanks : ∀ c ∈ rest.takeWhile isBlank, isBlank c = true := fun c hc => List.mem_takeWhile_imp hc
          have hdrop : text.drop (decorationExtent found text) = rest := by
            rw [← hlength, htext, List.drop_left]
          have hmore : text.drop (decorationExtent found text + (rest.takeWhile isBlank).length) =
              rest.dropWhile isBlank := by
            rw [← List.drop_drop, hdrop]
            exact drop_length_takeWhile isBlank rest
          have hfenced (hne : rest.dropWhile isBlank ≠ []) : Fenced (front ++ part ++ rest.takeWhile isBlank) := by
            refine (hpart (fun hnil => hne ?_) front).append hblanks
            rw [hnil]
            rfl
          obtain ⟨later, last, hlater, hskip, hlast, hstops⟩ := ih hfenced (stops_dropWhile isBlank rest)
          refine ⟨part ++ (rest.takeWhile isBlank ++ later), last, ?_, ?_, ?_, hstops⟩
          · rw [htext, List.append_assoc, List.append_assoc, ← hlater, ← hrest]
          · rw [skipDecorationsFrom_succ hfound, hdrop, hmore, ← hlength, ← List.length_append,
              ← List.length_append, hskip]
            simp
          · simpa using hlast

end Decoration

section Languages

open Pattern

/-- A pattern of declarations of types, which starts with no blank and picks out a name. -/
structure DeclaresType (pattern : Pattern) : Prop where
  within : pattern.Within isTypeChar
  opens : pattern.Opens fun c => !isBlank c
  names : pattern.Names

theorem isTypeChar_of_isWord {c : Char} (h : isWord c = true) : isTypeChar c = true := by
  simp [isTypeChar, h]

theorem isTypeChar_of_isNameStart {c : Char} (h : isNameStart c = true) : isTypeChar c = true := by
  refine isTypeChar_of_isWord ?_
  simp only [isNameStart, Bool.or_eq_true] at h
  rcases h with h | h
  · simp [isWord, Char.isAlphanum, h]
  · simp [isWord, h]

theorem within_blanks : blanks.Within isTypeChar :=
  ⟨fun _ => isTypeChar_of_isBlank, fun _ => isTypeChar_of_isBlank⟩

theorem within_plainName : plainName.Within isTypeChar :=
  ⟨fun _ => isTypeChar_of_isNameStart, fun _ => isTypeChar_of_isWord⟩

theorem names_plainName : plainName.Names :=
  names_group (opens_one fun _ h => h).follow

theorem declaresType_php : DeclaresType php.typePattern where
  within :=
    ⟨⟨within_word (by decide), within_blanks⟩, within_word (by decide), within_blanks, within_plainName⟩
  opens := .many_follow (opens_word (by decide)).follow (opens_word (by decide)).follow
  names := .follow (.follow (.follow names_plainName))

theorem declaresType_java : DeclaresType java.typePattern where
  within :=
    ⟨⟨within_word (by decide), within_blanks⟩, within_word (by decide), within_blanks, within_plainName⟩
  opens := .many_follow (opens_word (by decide)).follow (opens_word (by decide)).follow
  names := .follow (.follow (.follow names_plainName))

theorem within_scriptName : scriptName.Within isTypeChar := by
  refine ⟨fun c h => ?_, fun c h => ?_⟩
  · rcases Bool.or_eq_true_iff.mp h with h | h
    · exact isTypeChar_of_isNameStart h
    · simp [isTypeChar, h]
  · rcases Bool.or_eq_true_iff.mp h with h | h
    · exact isTypeChar_of_isWord h
    · simp [isTypeChar, h]

theorem declaresType_typescript : DeclaresType typescript.typePattern where
  within := by
    have hmark {value : String} (h : value.toList.all isTypeChar = true) :
        (optional (sequence [literal value, blanks])).Within isTypeChar :=
      ⟨⟨List.all_eq_true.mp h, within_blanks⟩, trivial⟩
    exact ⟨hmark (by decide), hmark (by decide), hmark (by decide), within_word (by decide), within_blanks,
      within_scriptName⟩
  opens :=
    .optional_follow (opens_literal (by decide)).follow <|
      .optional_follow (opens_literal (by decide)).follow <|
        .optional_follow (opens_literal (by decide)).follow (opens_word (by decide)).follow
  names := .follow (.follow (.follow (.follow (.follow (names_group (opens_one fun _ h => h).follow)))))

theorem decorates_php : Decorates (literal "#[") := by
  intro part groups hmatch
  obtain ⟨rfl, -⟩ := matches_text_iff.mp hmatch
  exact .inl ⟨['#'], '[', rfl, .inr rfl⟩

/-- Names behind a mark, with or without arguments. -/
theorem decorates_mark {start inside : Char → Bool} (hstart : start '\n' = false) (hinside : inside '\n' = false) :
    Decorates (sequence [literal "@", identifier start inside, optional (sequence [anyBlanks, literal "("])]) := by
  intro part groups hmatch
  obtain ⟨mark, back, _, _, hmark, hback, rfl, -⟩ := matches_follow_iff.mp hmatch
  obtain ⟨word, arguments, _, _, hword, harguments, rfl, -⟩ := matches_follow_iff.mp hback
  obtain ⟨rfl, -⟩ := matches_text_iff.mp hmark
  rcases matches_either_iff.mp harguments with hopened | hnothing
  · obtain ⟨gap, opening, _, _, -, hopening, rfl, -⟩ := matches_follow_iff.mp hopened
    obtain ⟨rfl, -⟩ := matches_text_iff.mp hopening
    exact .inl ⟨"@".toList ++ (word ++ gap), '(', by simp, .inl rfl⟩
  · obtain ⟨rfl, -⟩ := matches_nothing_iff.mp hnothing
    obtain ⟨first, more, _, _, hfirst, hmore, rfl, -⟩ := matches_follow_iff.mp hword
    obtain ⟨c, hc, rfl, -⟩ := matches_one_iff.mp hfirst
    refine .inr ⟨'@', c :: more, by simp, by decide, fun hnewline => ?_⟩
    rcases List.mem_cons.mp hnewline with rfl | hnewline
    · rw [hstart] at hc
      cases hc
    · have hmember := forall_of_matches_any hmore '\n' hnewline
      rw [hinside] at hmember
      cases hmember

theorem of_builtin {detector : Detector} (h : detector ∈ builtin) :
    DeclaresType detector.typePattern ∧ ∀ pattern, detector.decoration = .some pattern → Decorates pattern := by
  simp only [builtin, List.mem_cons, List.not_mem_nil, or_false] at h
  rcases h with rfl | rfl | rfl
  · exact ⟨declaresType_php, fun _ h => Option.some.inj h ▸ decorates_php⟩
  · exact ⟨declaresType_java, fun _ h => Option.some.inj h ▸ decorates_mark (by decide) (by decide)⟩
  · exact ⟨declaresType_typescript, fun _ h => Option.some.inj h ▸ decorates_mark (by decide) (by decide)⟩

end Languages

section Spans

variable {pattern : Pattern} {before rest : List Char} {found : MatchState}

/-- A text behind which a line starts; `first` tells whether one starts in front of it. -/
def StartsLine (first : Bool) (text : List Char) : Prop :=
  text.getLast?.elim first (· == '\n') = true

theorem startsLine_cons {first : Bool} {c : Char} {text : List Char} :
    StartsLine first (c :: text) ↔ StartsLine (c == '\n') text := by
  rw [StartsLine, StartsLine]
  cases text with
  | nil => rfl
  | cons next rest => rw [List.getLast?_cons_cons, List.getLast?_eq_some_getLast (by simp)]; rfl

/-- The pattern that declarations are found by at the starts of lines. -/
def indented (pattern : Pattern) : Pattern :=
  .follow (.any isInlineBlank) pattern

/-- A blank text that ends a line starts no declaration. -/
theorem not_matches_indented (hpattern : DeclaresType pattern) {back later : List Char}
    {groups : List (PatternGroup × List Char)} (hblank : ∀ c ∈ back, isBlank c = true)
    (hnewline : '\n' ∈ back) : ¬ (indented pattern).Matches (back ++ later) groups := by
  intro hmatch
  obtain ⟨lead, own, _, _, hlead, hown, heq, -⟩ := Pattern.matches_follow_iff.mp hmatch
  obtain ⟨c, more, rfl, hc⟩ := hpattern.opens own _ hown
  have hmissing : '\n' ∉ lead := fun hmember => by
    have hinline := Pattern.forall_of_matches_any hlead '\n' hmember
    revert hinline
    decide
  rcases List.append_eq_append_iff.mp heq with ⟨gap, rfl, -⟩ | ⟨gap, rfl, hgap⟩
  · exact hmissing (by simp [hnewline])
  · cases gap with
    | nil => exact hmissing (by simpa using hnewline)
    | cons first gap =>
        obtain ⟨rfl, -⟩ := List.cons.inj hgap
        simp [hblank c (by simp)] at hc

/-- A declaration that is found before a line does not run into it. -/
theorem taken_le_of_fenced (hpattern : DeclaresType pattern) {front back : List Char}
    (hfront : StartsLine true front) (hline : StartsLine true (front ++ back)) (hback : back ≠ [])
    (hfenced : Fenced (front ++ back))
    (h : (indented pattern).matchStart? (back ++ rest) = some found) : found.taken ≤ back.length := by
  obtain ⟨part, hmatch, htext, htaken⟩ := Pattern.exists_of_matchStart? h
  rw [htaken]
  by_contra hlong
  obtain ⟨later, rfl⟩ : back <+: part :=
    List.prefix_of_prefix_length_le (List.prefix_append back rest) (htext ▸ List.prefix_append part found.rest)
      (by omega)
  have hinside : ∀ c ∈ back ++ later, isTypeChar c = true :=
    hmatch.within ⟨fun _ hc => isTypeChar_of_isBlank (isBlank_of_isInlineBlank hc), hpattern.within⟩
  obtain ⟨head, mark, tail, heq, hmark, htail⟩ := hfenced
  have hmissing : mark ∉ back := fun hmember => by
    rw [hinside mark (by simp [hmember])] at hmark
    cases hmark
  rcases List.append_eq_append_iff.mp heq with ⟨more, -, rfl⟩ | ⟨more, rfl, hmore⟩
  · exact hmissing (by simp)
  · rcases List.eq_nil_or_concat more with rfl | ⟨lines, last, rfl⟩
    · obtain rfl : mark :: tail = back := hmore
      exact hmissing (by simp)
    · -- A line starts between the mark and the text, which is blank then.
      obtain rfl : last = '\n' := by simpa [StartsLine] using hfront
      cases lines with
      | nil =>
          obtain ⟨rfl, -⟩ := List.cons.inj hmore
          revert hmark
          decide
      | cons first lines =>
          obtain ⟨rfl, rfl⟩ := List.cons.inj hmore
          have hblank : ∀ c ∈ back, isBlank c = true := htail lines back (by simp)
          have hlast := List.getLast?_eq_some_getLast hback
          rw [StartsLine, List.getLast?_append_of_ne_nil _ hback, hlast] at hline
          exact not_matches_indented hpattern hblank
            (List.mem_of_getLast? (hlast.trans (congrArg some (eq_of_beq hline)))) hmatch

/-- The bodies that are found from the next character on are found, with what is found here taken as read. -/
theorem exists_resume (pattern : Pattern) (resume offset : Nat) (atLineStart : Bool) (c : Char) (rest : List Char) :
    ∃ later, (later = resume ∨ atLineStart = true ∧
        ∃ other, (indented pattern).matchStart? (c :: rest) = some other ∧ later = offset + other.taken) ∧
      typeSpansFrom pattern later (offset + 1) (c == '\n') rest ⊆
        typeSpansFrom pattern resume offset atLineStart (c :: rest) := by
  rw [typeSpansFrom]
  by_cases hhere : (atLineStart && decide (resume ≤ offset)) = true
  · rw [if_pos hhere]
    cases hfound : (indented pattern).matchStart? (c :: rest) with
    | none =>
        rw [indented] at hfound
        rw [hfound]
        exact ⟨resume, .inl rfl, List.Subset.refl _⟩
    | some other =>
        refine ⟨offset + other.taken, .inr ⟨(Bool.and_eq_true_iff.mp hhere).1, other, rfl, rfl⟩, ?_⟩
        rw [indented] at hfound
        rw [hfound]
        simp only
        split
        · exact List.Subset.refl _
        · exact List.subset_cons_self _ _
  · rw [if_neg hhere]
    exact ⟨resume, .inl rfl, List.Subset.refl _⟩

/-- What is found at the start of a line has its body among those of a text, unless what is found before runs into
the line. -/
theorem exists_mem_typeSpansFrom {resume offset : Nat} {atLineStart : Bool} {text : List Char}
    (hline : StartsLine atLineStart before) (hfound : (indented pattern).matchStart? text = some found)
    (htext : text ≠ []) (hbrace : '\x7b' ∈ found.rest) (hresume : resume ≤ offset + before.length)
    (hfree : ∀ front back, before = front ++ back → back ≠ [] → StartsLine atLineStart front →
      ∀ other, (indented pattern).matchStart? (back ++ text) = some other → other.taken ≤ back.length) :
    ∃ span ∈ typeSpansFrom pattern resume offset atLineStart (before ++ text),
      span.name = (found.part? .name).getD "" ∧ span.start = offset + before.length ∧
        offset + before.length + found.taken < span.stop := by
  induction before generalizing resume offset atLineStart with
  | nil =>
      obtain ⟨c, rest, rfl⟩ := List.exists_cons_of_ne_nil htext
      obtain rfl : atLineStart = true := hline
      have hhere : (true && decide (resume ≤ offset)) = true := by simpa using hresume
      have hbody : found.rest.drop (found.rest.takeWhile (· != '\x7b')).length ≠ [] := by
        rw [drop_length_takeWhile, Ne, List.dropWhile_eq_nil_iff]
        exact fun hall => absurd (hall '\x7b' hbrace) (by simp)
      rw [indented] at hfound
      rw [List.nil_append, typeSpansFrom, if_pos hhere, hfound]
      obtain ⟨opening, body, hbody⟩ := List.exists_cons_of_ne_nil hbody
      simp only [hbody]
      refine ⟨_, List.mem_cons_self, rfl, rfl, ?_⟩
      simp only [Bracket.matchExtent, List.length_nil]
      omega
  | cons c before ih =>
      obtain ⟨later, hlater, hsubset⟩ := exists_resume pattern resume offset atLineStart c (before ++ text)
      have hle : later ≤ offset + 1 + before.length := by
        rw [List.length_cons] at hresume
        rcases hlater with rfl | ⟨hstart, other, hother, rfl⟩
        · omega
        · have htaken := hfree [] (c :: before) rfl (by simp) hstart other hother
          rw [List.length_cons] at htaken
          omega
      obtain ⟨span, hspan, hname, hstart, hstop⟩ := ih (startsLine_cons.mp hline) hle
        fun front back heq hback hfront =>
          hfree (c :: front) back (by rw [heq]; rfl) hback (startsLine_cons.mpr hfront)
      rw [List.length_cons]
      exact ⟨span, hsubset hspan, hname, by omega, by omega⟩

/-- The bodies of a text are found in the order in which they start. -/
theorem pairwise_typeSpansFrom (pattern : Pattern) (resume offset : Nat) (atLineStart : Bool) (text : List Char) :
    (typeSpansFrom pattern resume offset atLineStart text).Pairwise (·.start < ·.start) ∧
      ∀ span ∈ typeSpansFrom pattern resume offset atLineStart text, offset ≤ span.start := by
  induction text generalizing resume offset atLineStart with
  | nil => exact ⟨.nil, by simp [typeSpansFrom]⟩
  | cons c rest ih =>
      have hlater (later : Nat) :
          (typeSpansFrom pattern later (offset + 1) (c == '\n') rest).Pairwise (·.start < ·.start) ∧
            ∀ span ∈ typeSpansFrom pattern later (offset + 1) (c == '\n') rest, offset ≤ span.start :=
        ⟨(ih later _ _).1, fun span hspan => Nat.le_of_succ_le ((ih later _ _).2 span hspan)⟩
      rw [typeSpansFrom]
      split
      · exact hlater _
      · simp only
        split
        · exact hlater _
        · exact ⟨.cons (fun span hspan => (ih _ _ _).2 span hspan) (ih _ _ _).1,
            List.forall_mem_cons.mpr ⟨Nat.le_refl offset, (hlater _).2⟩⟩

end Spans

section Declaration

variable {detector : Detector} {text : List Char} {comment : DocComment} {declaration : Declaration}

/-- The offset of the declaration that a doc comment may belong to, behind blanks and decorations. -/
def declarationOffset (detector : Detector) (text : List Char) (stop : Nat) : Nat :=
  detector.skipDecorations text (stop + ((text.drop stop).takeWhile isBlank).length)

/-- The declaration that a doc comment belongs to. -/
def declarationAfter? (detector : Detector) (text : List Char) (stop : Nat) : Option Declaration :=
  detector.declarationAt? text (detector.declarationOffset text stop)

theorem symbolAfter_of_declarationAfter? {identity : String} {spans : List TypeSpan} {stop : Nat}
    (h : detector.declarationAfter? text stop = some declaration) :
    symbolAfter identity (some detector) spans text stop = declaration.symbol spans := by
  rw [declarationAfter?, declarationOffset] at h
  rw [symbolAfter, h]

/-- No declaration of a type runs into a line that starts behind a doc comment and its decorations. -/
theorem fenced_declarationOffset {before after : List Char} (h : comment.Within 0 text before after)
    (hdecorates : ∀ pattern, detector.decoration = some pattern → Decorates pattern)
    (hrest : text.drop (detector.declarationOffset text comment.stop) ≠ []) :
    Fenced (text.take (detector.declarationOffset text comment.stop)) ∧
      Stops isBlank (text.drop (detector.declarationOffset text comment.stop)) := by
  obtain ⟨hstop, hfenced⟩ := fenced_comment h
  have hblanks : ∀ c ∈ (text.drop comment.stop).takeWhile isBlank, isBlank c = true :=
    fun c hc => List.mem_takeWhile_imp hc
  have hfront := hfenced.append hblanks
  have htail := stops_dropWhile isBlank (text.drop comment.stop)
  have hoffset : detector.declarationOffset text comment.stop = detector.skipDecorations text
      (text.take comment.stop ++ (text.drop comment.stop).takeWhile isBlank).length := by
    rw [declarationOffset, List.length_append, List.length_take, Nat.min_eq_left hstop]
  have htext : text = text.take comment.stop ++ (text.drop comment.stop).takeWhile isBlank ++
      (text.drop comment.stop).dropWhile isBlank := by
    rw [List.append_assoc, List.takeWhile_append_dropWhile, List.take_append_drop]
  rw [hoffset] at hrest ⊢
  generalize text.take comment.stop ++ (text.drop comment.stop).takeWhile isBlank = front at htext hfront hrest ⊢
  generalize (text.drop comment.stop).dropWhile isBlank = tail at htext htail
  obtain ⟨part, rest, rfl, hskip, hpart, hstops⟩ : ∃ part rest, tail = part ++ rest ∧
      detector.skipDecorations text front.length = (front ++ part).length ∧
      (rest ≠ [] → Fenced (front ++ part)) ∧ Stops isBlank rest := by
    rw [skipDecorations]
    split
    · exact ⟨[], tail, rfl, by simp, fun _ => by simpa using hfront, htail⟩
    · rename_i pattern hpattern
      rw [htext, List.drop_left]
      exact skipDecorationsFrom_spec (hdecorates pattern hpattern) _ (fun _ => hfront) htail
  rw [hskip, htext, ← List.append_assoc] at hrest ⊢
  rw [List.drop_left] at hrest ⊢
  rw [List.take_left]
  exact ⟨hpart hrest, hstops⟩

/-- A declaration of a type is what the pattern of types finds there. -/
theorem exists_of_declarationAt? {offset : Nat} (h : detector.declarationAt? text offset = some declaration)
    (htype : declaration.kind = .type) :
    ∃ found, detector.typePattern.matchStart? (text.drop offset) = some found ∧
      declaration.offset = offset ∧ declaration.name = (found.part? .name).getD "" := by
  have hkind {pattern : Pattern} {kind : SymbolKind}
      (hdeclared : declarationOf? pattern kind offset (text.drop offset) = some declaration) :
      ∃ found, pattern.matchStart? (text.drop offset) = some found ∧ declaration.kind = kind ∧
        declaration.offset = offset ∧ declaration.name = (found.part? .name).getD "" := by
    obtain ⟨found, hfound, rfl⟩ := Option.map_eq_some_iff.mp hdeclared
    exact ⟨found, hfound, rfl, rfl, rfl⟩
  rw [declarationAt?] at h
  rcases Option.or_eq_some_iff.mp h with h | ⟨-, h⟩
  · obtain ⟨found, hfound, -, hoffset, hname⟩ := hkind h
    exact ⟨found, hfound, hoffset, hname⟩
  · rcases Option.or_eq_some_iff.mp h with h | ⟨-, h⟩
    · obtain ⟨-, -, hmethod, -⟩ := hkind h
      rw [htype] at hmethod
      cases hmethod
    · obtain ⟨-, -, hfield, -⟩ := hkind h
      rw [htype] at hfield
      cases hfield

theorem name_of_declaresType (hpattern : DeclaresType detector.typePattern) {found : MatchState} {chars : List Char}
    (h : detector.typePattern.matchStart? chars = some found) : (found.part? .name).getD "" ≠ "" := by
  obtain ⟨part, hmatch, -, -⟩ := Pattern.exists_of_matchStart? h
  obtain ⟨name, hname, hne⟩ := hpattern.names part _ hmatch
  rw [MatchState.part?, hname]
  simpa using hne

/-- The text before an offset, with the part that stands on the line of the offset. -/
theorem exists_lines {offset : Nat} (h : text.drop offset ≠ []) :
    ∃ lines, text.take offset = lines ++ lastLine (text.take offset) ∧ StartsLine true lines ∧
      offset = lines.length + (lastLine (text.take offset)).length := by
  have hsplit : text.take offset =
      ((text.take offset).reverse.dropWhile (· != '\n')).reverse ++ lastLine (text.take offset) := by
    rw [lastLine, ← List.reverse_append, List.takeWhile_append_dropWhile, List.reverse_reverse]
  refine ⟨_, hsplit, ?_, ?_⟩
  · rw [StartsLine, List.getLast?_reverse]
    have hstops := stops_dropWhile (· != '\n') (text.take offset).reverse
    cases hhead : ((text.take offset).reverse.dropWhile (· != '\n')).head? with
    | none => rfl
    | some c => simpa using hstops c hhead
  · rw [← List.length_append, ← hsplit, List.length_take, Nat.min_eq_left]
    by_contra hlong
    exact h (List.drop_eq_nil_of_le (by omega))

/-- A block is made of a doc comment that stands before a declaration. -/
def Documents (detector : Detector) (identity : String) (text : List Char) (block : Block)
    (declaration : Declaration) : Prop :=
  ∃ comment ∈ (docCommentsFrom 0 0 text).1,
    block = comment.block identity (some detector) (detector.typeSpans text) text ∧
      detector.declarationAfter? text comment.stop = some declaration

variable {identity : String} {block : Block}

theorem Documents.mem_extractBlocks (h : detector.Documents identity text block declaration) :
    block ∈ (extractBlocks identity text (some detector)).1 := by
  obtain ⟨comment, hcomment, rfl, -⟩ := h
  exact List.mem_map_of_mem hcomment

theorem Documents.symbol_eq (h : detector.Documents identity text block declaration) :
    block.symbol = declaration.symbol (detector.typeSpans text) := by
  obtain ⟨comment, -, rfl, hdeclared⟩ := h
  exact symbolAfter_of_declarationAfter? hdeclared

/-- A block of a text belongs to the declaration that its doc comment stands before, or to the file. -/
theorem documents_or_file (h : block ∈ (extractBlocks identity text (some detector)).1) :
    (∃ declaration, detector.Documents identity text block declaration) ∨ block.symbol = .ofFile identity := by
  obtain ⟨comment, hcomment, rfl⟩ := List.mem_map.mp h
  cases hdeclared : detector.declarationAfter? text comment.stop with
  | some declaration => exact .inl ⟨declaration, comment, hcomment, rfl, hdeclared⟩
  | none =>
      refine .inr ?_
      rw [declarationAfter?, declarationOffset] at hdeclared
      simp only [DocComment.block, symbolAfter, hdeclared]

/-- A type that is declared behind a doc comment, with nothing but spaces and tabs before it on its line, is among
the types that are found in the text, if a brace comes behind it. -/
theorem Documents.exists_typeSpan (h : detector.Documents identity text block declaration)
    (hbuiltin : detector ∈ builtin) (htype : declaration.kind = .type)
    (hline : ∀ c ∈ lastLine (text.take declaration.offset), isInlineBlank c = true)
    (hbrace : '\x7b' ∈ text.drop declaration.offset) :
    ∃ span ∈ detector.typeSpans text, span.name = declaration.name ∧ span.start ≤ declaration.offset ∧
      declaration.offset < span.stop := by
  obtain ⟨comment, hmem, -, hdeclared⟩ := h
  obtain ⟨before, after, hcomment⟩ := exists_within hmem
  obtain ⟨hpattern, hdecorates⟩ := of_builtin hbuiltin
  obtain ⟨found, hfound, hoffset, hname⟩ := exists_of_declarationAt? hdeclared htype
  have hrest : text.drop declaration.offset ≠ [] := List.ne_nil_of_mem hbrace
  obtain ⟨hfenced, hstops⟩ := fenced_declarationOffset hcomment hdecorates (hoffset ▸ hrest)
  rw [← hoffset] at hfound hfenced hstops
  obtain ⟨lines, hlines, hstarts, hlength⟩ := exists_lines hrest
  generalize lastLine (text.take declaration.offset) = indent at hline hlines hlength
  have htext : text = lines ++ (indent ++ text.drop declaration.offset) := by
    rw [← List.append_assoc, ← hlines, List.take_append_drop]
  have hfenced : Fenced lines :=
    (hlines ▸ hfenced).of_append fun c hc => isBlank_of_isInlineBlank (hline c hc)
  have hindent : Stops isInlineBlank (text.drop declaration.offset) := by
    intro c hc
    by_contra hinline
    have hblank := hstops c hc
    rw [isBlank_of_isInlineBlank (by simpa using hinline)] at hblank
    cases hblank
  -- No brace is part of the declaration, so one comes behind it.
  obtain ⟨part, hmatch, hpart, -⟩ := Pattern.exists_of_matchStart? hfound
  have hbody : '\x7b' ∈ found.rest := by
    rw [hpart] at hbrace
    refine (List.mem_append.mp hbrace).resolve_left fun hmember => ?_
    exact absurd (hmatch.within hpattern.within '\x7b' hmember) (by decide)
  have hspans : ∃ span ∈ typeSpansFrom detector.typePattern 0 0 true
      (lines ++ (indent ++ text.drop declaration.offset)),
      span.name = (found.part? .name).getD "" ∧ span.start = 0 + lines.length ∧
        0 + lines.length + (found.shift indent.length).taken < span.stop := by
    refine exists_mem_typeSpansFrom hstarts (Pattern.matchStart?_any_follow hline hindent hfound)
      (List.append_ne_nil_of_right_ne_nil _ hrest) hbody (Nat.zero_le _) fun front back heq hback hfront other => ?_
    exact taken_le_of_fenced hpattern hfront (heq ▸ hstarts) hback (heq ▸ hfenced)
  obtain ⟨span, hspan, hspanName, hstart, hstop⟩ := hspans
  rw [← htext] at hspan
  refine ⟨span, hspan, hspanName.trans hname.symm, by omega, ?_⟩
  simp only [MatchState.shift] at hstop
  omega

/-- A documented type has a name. -/
theorem Documents.name_ne_empty (h : detector.Documents identity text block declaration)
    (hbuiltin : detector ∈ builtin) (htype : declaration.kind = .type) : declaration.name ≠ "" := by
  obtain ⟨comment, -, -, hdeclared⟩ := h
  obtain ⟨found, hfound, -, hname⟩ := exists_of_declarationAt? hdeclared htype
  exact hname ▸ name_of_declaresType (of_builtin hbuiltin).1 hfound

/-- A block on a type is attached to it: the symbol is of the type, and stands for itself. -/
theorem Documents.symbol_of_type (h : detector.Documents identity text block declaration)
    (htype : declaration.kind = .type) :
    block.symbol.kind = .type ∧ block.symbol.name = .text declaration.name ∧ block.symbol.parent = .null := by
  rw [h.symbol_eq]
  simp [Declaration.symbol, htype]

end Declaration

section Enclosing

/-- Of the innermost type so far and another one, the one that starts last. -/
def innerOf (best : Option TypeSpan) (span : TypeSpan) : Option TypeSpan :=
  match best with
  | none => some span
  | some inner => if inner.start < span.start then some span else best

theorem enclosingType?_eq (spans : List TypeSpan) (offset : Nat) :
    enclosingType? spans offset = (spans.filter (·.holds offset)).foldl innerOf none :=
  rfl

theorem mem_of_foldl_innerOf {spans : List TypeSpan} {best : Option TypeSpan} {found : TypeSpan}
    (h : spans.foldl innerOf best = some found) : found ∈ spans ∨ best = some found := by
  induction spans generalizing best with
  | nil => exact .inr h
  | cons span rest ih =>
      rcases ih h with hrest | hbest
      · exact .inl (List.mem_cons_of_mem _ hrest)
      · unfold innerOf at hbest
        split at hbest
        · exact .inl (Option.some.inj hbest ▸ List.mem_cons_self)
        · split_ifs at hbest
          · exact .inl (Option.some.inj hbest ▸ List.mem_cons_self)
          · exact .inr hbest

/-- Of types in the order in which they start, the one around an offset is the one that starts last among those
that hold the offset. -/
theorem enclosingType?_eq_some {spans : List TypeSpan} {span : TypeSpan} {offset : Nat}
    (hsorted : spans.Pairwise (·.start < ·.start)) (hspan : span ∈ spans) (hholds : span.holds offset = true)
    (hlast : ∀ other ∈ spans, other.holds offset = true → other.start ≤ span.start) :
    enclosingType? spans offset = some span := by
  have hmem : span ∈ spans.filter (·.holds offset) := List.mem_filter.mpr ⟨hspan, hholds⟩
  obtain ⟨front, back, hsplit⟩ := List.append_of_mem hmem
  have hheld := hsorted.filter (·.holds offset)
  rw [hsplit, List.pairwise_append] at hheld
  obtain ⟨-, hback, hfront⟩ := hheld
  obtain rfl : back = [] := by
    refine List.eq_nil_iff_forall_not_mem.mpr fun other hother => ?_
    have hheld : other ∈ spans.filter (·.holds offset) := by simp [hsplit, hother]
    have hle := hlast other (List.mem_filter.mp hheld).1 (List.mem_filter.mp hheld).2
    exact absurd (List.rel_of_pairwise_cons hback hother) (by omega)
  rw [enclosingType?_eq, hsplit, List.foldl_append, List.foldl_cons, List.foldl_nil]
  cases hfound : front.foldl innerOf none with
  | none => rfl
  | some inner =>
      have hinner := (mem_of_foldl_innerOf hfound).resolve_right (by simp)
      exact if_pos (hfront inner hinner span List.mem_cons_self)

variable {detector : Detector} {identity : String} {text : List Char} {block : Block} {declaration : Declaration}

/-- A block on a method or field is attached to the type around it. -/
theorem Documents.symbol_of_member (h : detector.Documents identity text block declaration)
    (hmember : declaration.kind ≠ .type) {span : TypeSpan} (hspan : span ∈ detector.typeSpans text)
    (hname : span.name ≠ "") (hholds : span.holds declaration.offset = true)
    (hlast : ∀ other ∈ detector.typeSpans text, other.holds declaration.offset = true →
      other.start ≤ span.start) :
    block.symbol.kind = declaration.kind ∧ block.symbol.parent = .text span.name ∧
      block.symbol.qualifiedName = .text (span.name ++ "." ++ declaration.name) := by
  have hsorted := (pairwise_typeSpansFrom detector.typePattern 0 0 true text).1
  have hencloses : enclosingType? (detector.typeSpans text) declaration.offset = some span :=
    enclosingType?_eq_some hsorted hspan hholds hlast
  rw [h.symbol_eq]
  simp [Declaration.symbol, hmember, hencloses, hname]

end Enclosing

end Detector

end DocCompiler
