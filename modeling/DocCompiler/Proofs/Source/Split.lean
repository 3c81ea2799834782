import DocCompiler.Proofs.Source.Place

/-!
The doc comments of a source are what it is split at. Up to each comment stands a text in which none
opens, a comment goes on to the first mark that closes it, and behind the last one none is closed.
-/

namespace DocCompiler

open Text

/-- A text starts with the mark that opens a doc comment. -/
inductive OpensDoc : List Char → Prop
  | intro {rest : List Char} (hstar : rest.head? ≠ some '*') (hslash : rest.head? ≠ some '/') :
      OpensDoc ('/' :: '*' :: '*' :: rest)

/-- A doc comment opens at a character of a part of a text, before the rest of it. -/
def OpensDocIn (part rest : List Char) : Prop :=
  ∃ lead tail, part = lead ++ tail ∧ tail ≠ [] ∧ OpensDoc (tail ++ rest)

/-- The text of a doc comment between its marks. -/
structure IsInner (inner : List Char) : Prop where
  ne_nil : inner ≠ []
  star : inner.head? ≠ some '*'
  slash : inner.head? ≠ some '/'
  closed : ¬ ['*', '/'] <:+: inner

/-- A doc comment and what stands in front of it. -/
structure SourcePart where
  gap : List Char
  inner : List Char

/-- A text with doc comments in it. -/
def assemble : List SourcePart → List Char → List Char
  | [], last => last
  | part :: parts, last => part.gap ++ '/' :: '*' :: '*' :: (part.inner ++ '*' :: '/' :: assemble parts last)

/-- A text is split at its doc comments. -/
inductive Split : List Char → List SourcePart → List Char → Prop
  | last {last : List Char}
      (hunclosed : ∀ lead rest, last = lead ++ rest → OpensDoc rest → ¬ ['*', '/'] <:+: rest.drop 3) :
      Split last [] last
  | comment {gap inner rest last : List Char} {parts : List SourcePart}
      (hgap : ¬ OpensDocIn gap ('/' :: '*' :: '*' :: (inner ++ '*' :: '/' :: rest))) (hinner : IsInner inner)
      (h : Split rest parts last) :
      Split (gap ++ '/' :: '*' :: '*' :: (inner ++ '*' :: '/' :: rest)) (⟨gap, inner⟩ :: parts) last

theorem opensDoc_iff {text : List Char} : opensDoc text = true ↔ OpensDoc text := by
  constructor
  · intro h
    obtain ⟨rest, rfl⟩ := exists_of_opensDoc h
    refine .intro (fun hstar => ?_) (fun hslash => ?_)
    · obtain ⟨more, rfl⟩ := List.head?_eq_some_iff.mp hstar
      cases h
    · obtain ⟨more, rfl⟩ := List.head?_eq_some_iff.mp hslash
      cases h
  · rintro @⟨rest, hstar, hslash⟩
    unfold opensDoc
    split
    · next htext => exact absurd (congrArg List.head? (congrArg (List.drop 3) htext)) hstar
    · next htext => exact absurd (congrArg List.head? (congrArg (List.drop 3) htext)) hslash
    · rfl
    · next hother => exact absurd rfl (hother rest)

namespace OpensDocIn

variable {c : Char} {part rest : List Char}

theorem not_nil : ¬ OpensDocIn [] rest := by
  rintro ⟨lead, tail, hsplit, hne, -⟩
  exact hne (List.append_eq_nil_iff.mp hsplit.symm).2

theorem cons_iff : OpensDocIn (c :: part) rest ↔ OpensDoc (c :: (part ++ rest)) ∨ OpensDocIn part rest := by
  constructor
  · rintro ⟨lead, tail, hsplit, hne, hopens⟩
    cases lead with
    | nil =>
        obtain rfl : c :: part = tail := hsplit
        exact .inl hopens
    | cons d lead => exact .inr ⟨lead, tail, (List.cons.inj hsplit).2, hne, hopens⟩
  · rintro (hopens | ⟨lead, tail, rfl, hne, hopens⟩)
    · exact ⟨[], c :: part, rfl, List.cons_ne_nil _ _, hopens⟩
    · exact ⟨c :: lead, tail, rfl, hne, hopens⟩

end OpensDocIn

instance : DecidablePred OpensDoc :=
  fun _ => decidable_of_iff _ opensDoc_iff

instance decidableOpensDocIn : (part rest : List Char) → Decidable (OpensDocIn part rest)
  | [], _ => .isFalse OpensDocIn.not_nil
  | _ :: part, rest =>
      have := decidableOpensDocIn part rest
      decidable_of_iff _ OpensDocIn.cons_iff.symm

theorem IsInner.opens {inner : List Char} (h : IsInner inner) (rest : List Char) :
    OpensDoc ('/' :: '*' :: '*' :: (inner ++ rest)) := by
  refine .intro ?_ ?_
  · rw [List.head?_append_of_ne_nil _ h.ne_nil]
    exact h.star
  · rw [List.head?_append_of_ne_nil _ h.ne_nil]
    exact h.slash

theorem exists_first_opening (text : List Char) :
    ¬ OpensDocIn text [] ∨ ∃ lead rest, text = lead ++ rest ∧ OpensDoc rest ∧ ¬ OpensDocIn lead rest := by
  induction text with
  | nil => exact .inl OpensDocIn.not_nil
  | cons c text ih =>
      by_cases hopens : OpensDoc (c :: text)
      · exact .inr ⟨[], c :: text, rfl, hopens, OpensDocIn.not_nil⟩
      · rcases ih with hnone | ⟨lead, rest, rfl, hrest, hlead⟩
        · refine .inl fun hin => ?_
          rw [OpensDocIn.cons_iff, List.append_nil] at hin
          exact hin.elim hopens hnone
        · refine .inr ⟨c :: lead, rest, rfl, hrest, fun hin => ?_⟩
          exact (OpensDocIn.cons_iff.mp hin).elim hopens hlead

/-- A text is closed nowhere, or there is a first place where it is. -/
theorem exists_first_closing (text : List Char) :
    ¬ ['*', '/'] <:+: text ∨
      ∃ inner rest, text = inner ++ '*' :: '/' :: rest ∧ ¬ ['*', '/'] <:+: inner := by
  induction text with
  | nil => exact .inl (by simp)
  | cons c text ih =>
      by_cases hcloses : ['*', '/'] <+: c :: text
      · obtain ⟨rest, hrest⟩ := hcloses
        exact .inr ⟨[], rest, hrest.symm, by simp⟩
      · rcases ih with hnone | ⟨inner, rest, rfl, hinner⟩
        · refine .inl fun hmark => ?_
          exact (List.infix_cons_iff.mp hmark).elim hcloses hnone
        · refine .inr ⟨c :: inner, rest, rfl, fun hmark => ?_⟩
          rcases List.infix_cons_iff.mp hmark with hstart | hlater
          · exact hcloses (hstart.trans (List.prefix_append (c :: inner) _))
          · exact hinner hlater

theorem indexOf?_closing {inner : List Char} (rest : List Char) (h : ¬ ['*', '/'] <:+: inner) :
    indexOf? ['*', '/'] (inner ++ '*' :: '/' :: rest) = some inner.length := by
  induction inner with
  | nil => rfl
  | cons c inner ih =>
      rw [List.infix_cons_iff, not_or] at h
      have hother : ¬ ['*', '/'].isPrefixOf (c :: (inner ++ '*' :: '/' :: rest)) = true := by
        rw [List.isPrefixOf_iff_prefix]
        rintro ⟨more, hmore⟩
        obtain ⟨rfl, hbehind⟩ := List.cons.inj hmore
        cases inner with
        | nil => cases hbehind
        | cons d inner =>
            obtain ⟨rfl, -⟩ := List.cons.inj hbehind
            exact h.1 ⟨inner, rfl⟩
      rw [List.cons_append, indexOf?, if_neg hother, ih h.2]
      rfl

theorem indexOf?_eq_none {part text : List Char} (h : ¬ part <:+: text) : indexOf? part text = none := by
  refine Option.eq_none_iff_forall_ne_some.mpr fun index hindex => h ?_
  obtain ⟨-, after, hafter⟩ := indexOf?_spec hindex
  exact ⟨text.take index, after, by rw [List.append_assoc]; exact hafter.symm⟩

section Scan

variable {text part rest : List Char} {offset : Nat}

theorem docCommentsFrom_skip (offset : Nat) (part rest : List Char) :
    docCommentsFrom offset part.length (part ++ rest) = docCommentsFrom (offset + part.length) 0 rest := by
  induction part generalizing offset with
  | nil => rfl
  | cons c part ih =>
      rw [List.cons_append, List.length_cons, docCommentsFrom, if_pos (Nat.succ_pos _), Nat.add_sub_cancel, ih,
        Nat.add_right_comm, Nat.add_assoc]

theorem docCommentsFrom_char {c : Char} (h : ¬ OpensDoc (c :: rest)) :
    docCommentsFrom offset 0 (c :: rest) = docCommentsFrom (offset + 1) 0 rest := by
  rw [docCommentsFrom, if_neg (Nat.lt_irrefl 0), if_neg (mt opensDoc_iff.mp h)]

/-- What stands in front of a comment is passed over. -/
theorem docCommentsFrom_gap (offset : Nat) (h : ¬ OpensDocIn part rest) :
    docCommentsFrom offset 0 (part ++ rest) = docCommentsFrom (offset + part.length) 0 rest := by
  induction part generalizing offset with
  | nil => rfl
  | cons c part ih =>
      rw [OpensDocIn.cons_iff, not_or] at h
      rw [List.cons_append, docCommentsFrom_char h.1, ih (offset + 1) h.2, List.length_cons,
        Nat.add_right_comm, Nat.add_assoc]

theorem docCommentsFrom_comment {inner : List Char} (offset : Nat) (h : IsInner inner) :
    docCommentsFrom offset 0 ('/' :: '*' :: '*' :: (inner ++ '*' :: '/' :: rest)) =
      (⟨offset, inner, offset + inner.length + 5⟩ ::
          (docCommentsFrom (offset + inner.length + 5) 0 rest).1,
        (docCommentsFrom (offset + inner.length + 5) 0 rest).2) := by
  have hskip := docCommentsFrom_skip (offset + 1) ('*' :: '*' :: (inner ++ ['*', '/'])) rest
  have hwidth : ('*' :: '*' :: (inner ++ ['*', '/'])).length = inner.length + 4 := by simp
  have hstop : offset + 1 + (inner.length + 4) = offset + inner.length + 5 := by omega
  have hassoc : '*' :: '*' :: (inner ++ ['*', '/']) ++ rest = '*' :: '*' :: (inner ++ '*' :: '/' :: rest) := by
    simp
  rw [hwidth, hstop, hassoc] at hskip
  rw [docCommentsFrom, if_neg (Nat.lt_irrefl 0), if_pos (opensDoc_iff.mpr (h.opens _))]
  simp only [List.drop_succ_cons, List.drop_zero, indexOf?_closing rest h.closed, List.take_left, hskip]

theorem docCommentsFrom_unclosed (offset : Nat) (h : OpensDoc text) (hunclosed : ¬ ['*', '/'] <:+: text.drop 3) :
    docCommentsFrom offset 0 text = ([], some offset) := by
  have hopens := opensDoc_iff.mpr h
  obtain ⟨hstar, hslash⟩ := h
  rw [docCommentsFrom, if_neg (Nat.lt_irrefl 0), if_pos hopens]
  simp only [List.drop_succ_cons, List.drop_zero] at hunclosed ⊢
  rw [indexOf?_eq_none hunclosed]

/-- What is behind the last comment that is closed: in it none opens, or there is a first one that does. -/
theorem docCommentsFrom_last (offset : Nat)
    (hunclosed : ∀ lead rest, text = lead ++ rest → OpensDoc rest → ¬ ['*', '/'] <:+: rest.drop 3) :
    (¬ OpensDocIn text [] ∧ docCommentsFrom offset 0 text = ([], none)) ∨
      ∃ lead rest, text = lead ++ rest ∧ OpensDoc rest ∧ ¬ OpensDocIn lead rest ∧
        docCommentsFrom offset 0 text = ([], some (offset + lead.length)) := by
  rcases exists_first_opening text with hnone | ⟨lead, rest, rfl, hopens, hlead⟩
  · refine .inl ⟨hnone, ?_⟩
    have hgap := docCommentsFrom_gap offset hnone
    rwa [List.append_nil] at hgap
  · refine .inr ⟨lead, rest, rfl, hopens, hlead, ?_⟩
    rw [docCommentsFrom_gap offset hlead, docCommentsFrom_unclosed _ hopens (hunclosed lead rest rfl hopens)]

end Scan

theorem assemble_append (earlier later : List SourcePart) (last : List Char) :
    assemble (earlier ++ later) last = assemble earlier (assemble later last) := by
  induction earlier with
  | nil => rfl
  | cons part earlier ih => rw [List.cons_append, assemble, assemble, ih]

theorem assemble_append_last (parts : List SourcePart) (first rest : List Char) :
    assemble parts (first ++ rest) = assemble parts first ++ rest := by
  induction parts with
  | nil => rfl
  | cons part parts ih =>
      rw [assemble, assemble, ih]
      simp

namespace Split

variable {text last : List Char} {parts : List SourcePart}

theorem text_eq (h : Split text parts last) : text = assemble parts last := by
  induction h with
  | last => rfl
  | comment _ _ _ ih => rw [assemble, ← ih]

/-- Behind the last comment, none that opens is closed. -/
theorem unclosed (h : Split text parts last) :
    ∀ lead rest, last = lead ++ rest → OpensDoc rest → ¬ ['*', '/'] <:+: rest.drop 3 := by
  induction h with
  | last hunclosed => exact hunclosed
  | comment _ _ _ ih => exact ih

/-- The comments of a text are those it is split at. -/
theorem docCommentsFrom_eq (h : Split text parts last) (offset : Nat) :
    (docCommentsFrom offset 0 text).1.length = parts.length ∧
      (∀ earlier part later, parts = earlier ++ part :: later →
        (docCommentsFrom offset 0 text).1[earlier.length]? =
          some ⟨offset + (assemble earlier part.gap).length, part.inner,
            offset + (assemble earlier part.gap).length + part.inner.length + 5⟩) ∧
      (docCommentsFrom offset 0 text).2 =
        (docCommentsFrom (offset + (assemble parts []).length) 0 last).2 := by
  induction h generalizing offset with
  | @last last hunclosed =>
      have hnone : (docCommentsFrom offset 0 last).1 = [] := by
        rcases docCommentsFrom_last offset hunclosed with ⟨-, hscan⟩ | ⟨_, _, -, -, -, hscan⟩ <;> rw [hscan]
      refine ⟨by rw [hnone]; rfl, fun earlier part later hparts => ?_, rfl⟩
      exact absurd hparts.symm (List.append_ne_nil_of_right_ne_nil _ (List.cons_ne_nil _ _))
  | @comment gap inner rest last parts hgap hinner _ ih =>
      obtain ⟨hlength, hcomments, hunclosed⟩ := ih (offset + gap.length + inner.length + 5)
      rw [docCommentsFrom_gap offset hgap, docCommentsFrom_comment _ hinner]
      have hwidth (earlier : List SourcePart) (gap' : List Char) :
          (assemble (⟨gap, inner⟩ :: earlier) gap').length =
            gap.length + inner.length + 5 + (assemble earlier gap').length := by
        simp only [assemble, List.length_append, List.length_cons]
        omega
      refine ⟨by rw [List.length_cons, hlength, List.length_cons], fun earlier part later hparts => ?_, ?_⟩
      · cases earlier with
        | nil =>
            obtain ⟨rfl, -⟩ := List.cons.inj hparts
            rfl
        | cons first earlier =>
            obtain ⟨rfl, hrest⟩ := List.cons.inj hparts
            rw [List.length_cons, List.getElem?_cons_succ, hcomments earlier part later hrest, hwidth]
            simp only [Option.some.injEq, DocComment.mk.injEq, true_and]
            omega
      · rw [hunclosed, hwidth]
        simp only [Nat.add_assoc]

theorem unique {others : List SourcePart} {other : List Char} (h : Split text parts last)
    (hother : Split text others other) : parts = others ∧ last = other := by
  induction h generalizing others other with
  | last hunclosed =>
      cases hother with
      | last => exact ⟨rfl, rfl⟩
      | @comment gap inner rest =>
          exact absurd ⟨inner, rest, by simp⟩ (hunclosed gap _ rfl (IsInner.opens ‹_› _))
  | @comment gap inner rest last parts hgap hinner _ ih =>
      generalize htext : gap ++ '/' :: '*' :: '*' :: (inner ++ '*' :: '/' :: rest) = text at hother
      cases hother with
      | last hunclosed =>
          exact absurd ⟨inner, rest, by simp⟩ (hunclosed gap _ htext.symm (hinner.opens _))
      | @comment gap' inner' rest' last' parts' hgap' hinner' h' =>
          -- The first comment that is found starts behind both gaps, and has both texts.
          have hfirst := congrArg (fun text => (docCommentsFrom 0 0 text).1.head?) htext
          simp only [docCommentsFrom_gap 0 hgap, docCommentsFrom_gap 0 hgap', docCommentsFrom_comment _ hinner,
            docCommentsFrom_comment _ hinner', List.head?_cons, Option.some.injEq, DocComment.mk.injEq] at hfirst
          obtain ⟨hstart, rfl, -⟩ := hfirst
          obtain ⟨rfl, hbody⟩ := List.append_inj htext (by omega)
          obtain rfl : rest = rest' := by simpa using hbody
          obtain ⟨rfl, rfl⟩ := ih h'
          exact ⟨rfl, rfl⟩

end Split

/-- Behind the place where a comment opens first, none is closed if that one is not. -/
theorem not_closed_of_first {gap body lead rest : List Char} (hgap : ¬ OpensDocIn gap body)
    (hnone : ¬ ['*', '/'] <:+: body.drop 3) (hsplit : gap ++ body = lead ++ rest) (hopens : OpensDoc rest) :
    ¬ ['*', '/'] <:+: rest.drop 3 := by
  have hsuffix : rest <:+ body := by
    rcases List.append_eq_append_iff.mp hsplit with ⟨between, -, rfl⟩ | ⟨between, rfl, rfl⟩
    · exact List.suffix_append _ _
    · by_cases hbetween : between = []
      · rw [hbetween]
        exact List.suffix_rfl
      · exact absurd ⟨lead, between, rfl, hbetween, hopens⟩ hgap
  have hdrop : rest.drop 3 <:+ body.drop 3 := by
    refine List.suffix_of_suffix_length_le ((List.drop_suffix 3 rest).trans hsuffix) (List.drop_suffix 3 body) ?_
    have hle := hsuffix.length_le
    rw [List.length_drop, List.length_drop]
    omega
  exact fun hmark => hnone (hmark.trans hdrop.isInfix)

theorem exists_split (text : List Char) : ∃ parts last, Split text parts last := by
  induction hlength : text.length using Nat.strong_induction_on generalizing text with
  | _ length ih =>
      rcases exists_first_opening text with hnone | ⟨gap, body, rfl, hopens, hgap⟩
      · refine ⟨[], text, .last fun lead rest hsplit hopens => absurd ?_ hnone⟩
        refine ⟨lead, rest, hsplit, ?_, by rwa [List.append_nil]⟩
        rintro rfl
        cases hopens
      · obtain @⟨more, hstar, hslash⟩ := hopens
        rcases exists_first_closing more with hnone | ⟨inner, rest, rfl, hclosed⟩
        · exact ⟨[], _, .last fun lead rest hsplit => not_closed_of_first hgap hnone hsplit⟩
        · have hne : inner ≠ [] := by
            rintro rfl
            exact hstar rfl
          rw [List.head?_append_of_ne_nil _ hne] at hstar hslash
          have hshort : rest.length < length := by
            simp only [List.length_append, List.length_cons] at hlength
            omega
          obtain ⟨parts, last, hsplit⟩ := ih rest.length hshort rest rfl
          exact ⟨⟨gap, inner⟩ :: parts, last, .comment hgap ⟨hne, hstar, hslash, hclosed⟩ hsplit⟩

theorem map_fst_cleanLines (firstColumn : Nat) (inner : List Char) :
    (cleanLines firstColumn inner).map (·.1) = (cleanLines 1 inner).map (·.1) := by
  rw [cleanLines, cleanLines]
  cases inner.splitOn '\n' <;> rfl

/-- A block is that of a doc comment with a text before it and a text between its marks. -/
structure Block.IsOf (block : Block) (identity : String) (before inner : List Char) : Prop where
  source : block.source = identity
  text : block.text.toList = cleanText inner
  startLine : block.startLine = (before.count '\n' + 1 : Nat)
  startColumn : block.startColumn = ((lastLine before).length + 1 : Nat)
  endLine : block.endLine = ((before ++ '/' :: '*' :: '*' :: (inner ++ ['*', '/'])).count '\n' + 1 : Nat)

/-- The block of a comment of a text, with the lines and columns of its marks. -/
theorem DocComment.Within.block_isOf {comment : DocComment} {text before after : List Char}
    (h : comment.Within 0 text before after) (identity : String) (detector : Option Detector)
    (spans : List TypeSpan) :
    (comment.block identity detector spans text).IsOf identity before comment.inner where
  source := rfl
  text := by
    rw [block, String.toList_ofList, map_fst_cleanLines, cleanText]
  startLine := by rw [block, h.lineOf_start]
  startColumn := by rw [block, h.columnOf_start]
  endLine := by
    rw [block, h.lineOf_stop]
    simp

/-- The blocks of a source are those of the comments that its text is split at, in order. At most one
diagnostic comes with them, for a comment behind the last of them that opens and is not closed. -/
theorem extractBlocks_splits (identity : String) (text : List Char) (detector : Option Detector) :
    ∃ parts last,
      (text = assemble parts last ∧ Split text parts last ∧
        ∀ others other, Split text others other → others = parts ∧ other = last) ∧
      ((extractBlocks identity text detector).1.length = parts.length ∧
        ∀ earlier part later, parts = earlier ++ part :: later →
          ∃ block, (extractBlocks identity text detector).1[earlier.length]? = some block ∧
            block.IsOf identity (assemble earlier part.gap) part.inner) ∧
      ((¬ OpensDocIn last [] ∧ (extractBlocks identity text detector).2 = []) ∨
        ∃ lead rest, last = lead ++ rest ∧ OpensDoc rest ∧ ¬ OpensDocIn lead rest ∧
          (extractBlocks identity text detector).2 =
            [Diagnostic.error .extract "unterminated doc comment"
              (some ⟨identity, some ((assemble parts lead).count '\n' + 1 : Nat),
                some ((lastLine (assemble parts lead)).length + 1 : Nat)⟩)]) := by
  obtain ⟨parts, last, hsplit⟩ := exists_split text
  obtain ⟨hlength, hcomments, hunclosed⟩ := hsplit.docCommentsFrom_eq 0
  refine ⟨parts, last, ⟨hsplit.text_eq, hsplit, fun others other hother => hother.unique hsplit⟩,
    ⟨by simp [extractBlocks, hlength], fun earlier part later hparts => ?_⟩, ?_⟩
  · have htext : text = assemble earlier part.gap ++
        '/' :: '*' :: '*' :: (part.inner ++ '*' :: '/' :: assemble later last) := by
      rw [hsplit.text_eq, hparts, assemble_append, assemble, assemble_append_last]
    have hwithin : DocComment.Within ⟨(assemble earlier part.gap).length, part.inner,
        (assemble earlier part.gap).length + part.inner.length + 5⟩ 0 text (assemble earlier part.gap)
        (assemble later last) :=
      ⟨htext, (Nat.zero_add _).symm, rfl⟩
    refine ⟨_, ?_, hwithin.block_isOf identity detector
      (detector.elim [] fun detector => detector.typeSpans text)⟩
    simp only [extractBlocks, List.getElem?_map, hcomments earlier part later hparts, Nat.zero_add,
      Option.map_some]
  · rcases docCommentsFrom_last (0 + (assemble parts []).length) hsplit.unclosed with
      ⟨hnone, hscan⟩ | ⟨lead, rest, rfl, hopens, hfirst, hscan⟩
    · refine .inl ⟨hnone, ?_⟩
      simp only [extractBlocks, hunclosed, hscan, Option.toList_none, List.map_nil]
    · have hoffset : 0 + (assemble parts []).length + lead.length = (assemble parts lead).length := by
        have hlead := congrArg List.length (assemble_append_last parts [] lead)
        rw [List.nil_append, List.length_append] at hlead
        rw [hlead, Nat.zero_add]
      have htext : text = assemble parts lead ++ rest := by
        rw [hsplit.text_eq, assemble_append_last]
      refine .inr ⟨lead, rest, rfl, hopens, hfirst, ?_⟩
      simp only [extractBlocks, hunclosed, hscan, hoffset, Option.toList_some, List.map_singleton]
      rw [htext, lineOf_append, columnOf_append]

end DocCompiler
