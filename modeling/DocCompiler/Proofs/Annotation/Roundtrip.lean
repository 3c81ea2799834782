import DocCompiler.Proofs.Annotation.Level

/-!
Reading gives back what was written: the text of an annotation, alone in a doc comment, is read as that
annotation and nothing else, unless it nests too deep.
-/

namespace DocCompiler.Annotation

open Text

section Parse

variable {setting : Setting}

/-- Nothing is read from lines that do not start with a tag that is to be read. -/
theorem readLines_of_none {resume : Resume} {lines : List Cursor}
    (h : ∀ line ∈ lines, (candidate? line).filter resume.admits = none) :
    readLines setting resume lines = .ok ([], []) := by
  induction lines with
  | nil => rfl
  | cons line rest ih =>
      rw [List.forall_mem_cons] at h
      rw [readLines, h.1]
      exact ih h.2

theorem behindBreaks_end {offset : Nat} {text : List Char} {line : Cursor}
    (h : line ∈ lineStarts.behindBreaks offset text) :
    line.offset + line.rest.length = offset + text.length := by
  induction text generalizing offset with
  | nil => simp [lineStarts.behindBreaks] at h
  | cons c rest ih =>
      rw [lineStarts.behindBreaks] at h
      rw [List.length_cons]
      split_ifs at h
      · obtain rfl | h := List.mem_cons.mp h
        · change offset + 1 + rest.length = _
          omega
        · have := ih h
          omega
      · have := ih h
        omega

theorem behindBreaks_eq_nil {offset : Nat} {text : List Char} (h : '\n' ∉ text) :
    lineStarts.behindBreaks offset text = [] := by
  induction text generalizing offset with
  | nil => rfl
  | cons c rest ih =>
      rw [List.mem_cons, not_or] at h
      rw [lineStarts.behindBreaks, if_neg (by simpa using Ne.symm h.1), ih h.2]

/-- The tag of a candidate stands before the end of its line. -/
theorem candidate?_lt {line : Cursor} {candidate : Candidate} (h : candidate? line = some candidate) :
    candidate.start.offset < line.offset + line.rest.length := by
  simp only [candidate?, Option.ite_none_right_eq_some, Bool.and_eq_true, beq_iff_eq,
    Option.some.injEq] at h
  obtain ⟨⟨hpeek, -⟩, rfl⟩ := h
  simp only [Cursor.peek?, Cursor.skipInlineBlanks, Cursor.skipWhile, Cursor.advance] at hpeek ⊢
  have hlength : (line.rest.takeWhile isInlineBlank).length < line.rest.length := by
    by_contra hle
    simp [List.drop_eq_nil_of_le (Nat.not_lt.mp hle)] at hpeek
  omega

/-- The first line of the text of an annotation has the annotation as its candidate. -/
theorem candidate?_prints {base name tail : List Char} (hname : IsTagName base name)
    (hstops : Stops isWord tail) (hmark : namespaceMark tail = []) :
    candidate? ⟨0, '@' :: (name ++ tail)⟩ = some ⟨0, ⟨0, '@' :: (name ++ tail)⟩, name⟩ := by
  have hstart : Cursor.skipInlineBlanks ⟨0, '@' :: (name ++ tail)⟩ = ⟨0, '@' :: (name ++ tail)⟩ :=
    Cursor.skipWhile_of_stops (.cons (by decide))
  have hempty : name.isEmpty = false := by simpa using hname.ne_nil
  simp only [candidate?, hstart, Cursor.peek?, List.head?_cons, List.drop_succ_cons, List.drop_zero,
    tagName_append hname hstops hmark, hempty, beq_self_eq_true, Bool.not_false, Bool.and_self, if_true,
    Nat.sub_self]

/-- Reading goes on behind the text of an annotation, where no line starts with a tag. -/
theorem readLines_behind {resume : Resume} {text : List Char} (hresume : resume.offset = text.length) :
    readLines setting resume (lineStarts.behindBreaks 0 text) = .ok ([], []) := by
  refine readLines_of_none fun line hline => ?_
  have hend := behindBreaks_end hline
  cases hcandidate : candidate? line with
  | none => rfl
  | some candidate =>
      have hlt := candidate?_lt hcandidate
      rw [Option.filter_some, if_neg]
      simp only [Resume.admits, Bool.and_eq_true, decide_eq_true_eq, not_and]
      omega

section First

variable {text name : List Char} (hcandidate : candidate? ⟨0, text⟩ = some ⟨0, ⟨0, text⟩, name⟩)
  (htext : text ≠ [])

include hcandidate htext

/-- The first candidate is admitted. -/
theorem readLines_first {outcome : Outcome}
    (houtcome : readCandidate setting ⟨0, ⟨0, text⟩, name⟩ = .ok outcome)
    (hbehind : readLines setting outcome.resume (lineStarts.behindBreaks 0 text) = .ok ([], [])) :
    readLines setting {} (lineStarts 0 text) = .ok (outcome.node.toList, outcome.issues) := by
  obtain ⟨c, rest, rfl⟩ := List.exists_cons_of_ne_nil htext
  have hfilter : (candidate? ⟨0, c :: rest⟩).filter (Resume.admits {}) = some ⟨0, ⟨0, c :: rest⟩, name⟩ := by
    rw [hcandidate]
    rfl
  rw [lineStarts, readLines, hfilter]
  simp only [houtcome, bind, Except.bind, hbehind, pure, Except.pure, List.append_nil]

theorem readLines_first_error {number : LongNumber}
    (houtcome : readCandidate setting ⟨0, ⟨0, text⟩, name⟩ = .error number) :
    readLines setting {} (lineStarts 0 text) = .error number := by
  obtain ⟨c, rest, rfl⟩ := List.exists_cons_of_ne_nil htext
  have hfilter : (candidate? ⟨0, c :: rest⟩).filter (Resume.admits {}) = some ⟨0, ⟨0, c :: rest⟩, name⟩ := by
    rw [hcandidate]
    rfl
  rw [lineStarts, readLines, hfilter]
  simp only [houtcome, bind, Except.bind]

end First

/-- The candidate of the text of an annotation gives the annotation, or the fault that it nests too
deep. -/
theorem readCandidate_prints {node : Node} {text : List Char}
    (hprintable : node.Printable setting.constants)
    (htop : ∃ tag, node.tag = .text tag ∧ isTopLevelTag tag = true) (hprints : node.Prints text) :
    ∃ name outcome, candidate? ⟨0, text⟩ = some ⟨0, ⟨0, text⟩, name⟩ ∧
      readCandidate setting ⟨0, ⟨0, text⟩, name⟩ = .ok outcome ∧
        (node.nesting ≤ maxNesting → ∃ found, found.unplaced = node.unplaced ∧
          outcome = { node := some found, resume := { offset := text.length } }) ∧
          (¬ node.nesting ≤ maxNesting → ∃ place,
            outcome.node = none ∧ outcome.issues = [(.nestedTooDeeply, place)]) := by
  have hreads := Reader.topTag_reads hprintable hprints
  obtain ⟨tag, attributes, children, line, column⟩ := node
  obtain ⟨top, htag, htop⟩ := htop
  obtain ⟨base, name, rfl, hname, hbare | hlist⟩ := hprints
  · obtain ⟨rfl, rfl, rfl⟩ := hbare
    obtain rfl := Datum.text.inj htag
    have hcandidate := @candidate?_prints _ _ [] hname (by simp [Stops]) rfl
    rw [List.append_nil] at hcandidate
    have hafter : Cursor.advance ⟨0, '@' :: name⟩ (name.length + 1) = ⟨0 + ('@' :: name).length, []⟩ := by
      simpa using @Cursor.advance_append ('@' :: name) [] 0
    have hread : readCandidate setting ⟨0, ⟨0, '@' :: name⟩, name⟩ =
        .ok { node := some ⟨.text (String.ofList base), [], [], (setting.place 0).line.getD 0,
                (setting.place 0).column.getD 0⟩
              resume := { offset := ('@' :: name).length } } := by
      rw [readCandidate]
      simp only [hafter, readBare, hname.baseName_eq, htop, if_true, List.length_cons, Nat.zero_add]
      rfl
    refine ⟨name, _, hcandidate, hread, fun _ => ⟨⟨.text (String.ofList base), [], [],
      (setting.place 0).line.getD 0, (setting.place 0).column.getD 0⟩, rfl, rfl⟩,
      fun hdeep => absurd ?_ hdeep⟩
    simp [Node.nesting, Value.nestingOfEntries, Node.nestingOfNodes, maxNesting]
  · obtain ⟨blanks, parts, nested, arguments, hblanks, -, -, henclosed, rfl⟩ := hlist
    obtain rfl := Datum.text.inj htag
    have htail {test : Char → Bool} (htest : ∀ c ∈ [' ', '\t', '('], test c = false) :=
      stops_of_arguments hblanks (List.append_nil arguments ▸ henclosed.head_append []) htest
    have hcandidate := candidate?_prints hname (htail (List.all_iff_forall_prop.mp (by decide)))
      (namespaceMark_eq_nil (htail (List.all_iff_forall_prop.mp (by decide))))
    have hread : readCandidate setting ⟨0, ⟨0, '@' :: (name ++ (blanks ++ arguments))⟩, name⟩ =
        readTag setting ⟨0, ⟨0, '@' :: (name ++ (blanks ++ arguments))⟩, name⟩ := by
      have hafter : Cursor.advance ⟨0, '@' :: (name ++ (blanks ++ arguments))⟩ (name.length + 1) =
          ⟨0 + ('@' :: name).length, blanks ++ arguments⟩ :=
        @Cursor.advance_append ('@' :: name) _ 0
      obtain ⟨more, rfl⟩ := henclosed.head
      have hopening : Cursor.skipInlineBlanks ⟨0 + ('@' :: name).length, blanks ++ '(' :: more⟩ =
          ⟨0 + ('@' :: name).length + blanks.length, '(' :: more⟩ :=
        Cursor.skipWhile_append hblanks (.cons (by decide))
      rw [readCandidate]
      simp only [hafter, hopening]
      rfl
    have hknown : isKnownTag (String.ofList base) = true ∧ isNestedOnlyTag (String.ofList base) = false := by
      simpa [isTopLevelTag] using htop
    by_cases hfits : Node.nesting ⟨.text (String.ofList base), attributes, children, line, column⟩ ≤ maxNesting
    · obtain ⟨found, hfound, hrun⟩ := hreads.ok hfits 0 [] [] .nil
      rw [List.append_nil] at hrun
      simp only [ReadState.before, Nat.zero_add] at hrun
      refine ⟨name, _, hcandidate, ?_, fun _ => ⟨found, hfound, rfl⟩, fun hdeep => absurd hfits hdeep⟩
      rw [hread, readTag, hrun]
      simp only [hname.baseName_eq, hknown, Bool.not_true, Bool.false_eq_true, if_false, List.isEmpty_nil,
        if_true]
    · obtain ⟨place, hrun⟩ := hreads.error hfits 0 [] [] .nil
      rw [List.append_nil] at hrun
      simp only [ReadState.before] at hrun
      have hrefuses : readCandidate setting ⟨0, ⟨0, '@' :: (name ++ (blanks ++ arguments))⟩, name⟩ =
          .ok (Outcome.mk none [(.nestedTooDeeply, place)]
            ⟨nextLine ⟨0, '@' :: (name ++ (blanks ++ arguments))⟩, some 0⟩) := by
        rw [hread, readTag, hrun]
      exact ⟨name, _, hcandidate, hrefuses, fun hfits' => absurd hfits' hfits,
        fun _ => ⟨place, rfl, rfl⟩⟩

section Block

variable {constants : Constants} {node : Node} {block : Block} (hprintable : node.Printable constants)
  (htop : ∃ tag, node.tag = .text tag ∧ isTopLevelTag tag = true)
  (hprints : node.Prints block.text.toList)

include hprintable htop hprints

theorem parse_of_nesting_le (hnesting : node.nesting ≤ maxNesting) :
    ∃ found, parse constants block = .ok ([found], []) ∧ found.unplaced = node.unplaced := by
  simp only [parse, parseText]
  generalize locate block.source block.startLine block.startColumn block.lineColumns
    block.text.toList = place
  obtain ⟨name, outcome, hcandidate, hread, hfits, -⟩ :=
    @readCandidate_prints ⟨constants, place⟩ _ _ hprintable htop hprints
  obtain ⟨found, hfound, rfl⟩ := hfits hnesting
  refine ⟨found, ?_, hfound⟩
  rw [readLines_first hcandidate hprints.ne_nil hread (readLines_behind rfl)]
  rfl

theorem parse_of_lt_nesting (hnesting : maxNesting < node.nesting)
    (hnewline : '\n' ∉ block.text.toList) :
    ∃ place, parse constants block = .ok ([], [⟨.nestedTooDeeply, place⟩]) := by
  simp only [parse, parseText]
  generalize locate block.source block.startLine block.startColumn block.lineColumns
    block.text.toList = place
  obtain ⟨name, outcome, hcandidate, hread, -, hdeep⟩ :=
    @readCandidate_prints ⟨constants, place⟩ _ _ hprintable htop hprints
  obtain ⟨offset, hnode, hissues⟩ := hdeep (Nat.not_le.mpr hnesting)
  refine ⟨place offset, ?_⟩
  have hbehind : readLines ⟨constants, place⟩ outcome.resume
      (lineStarts.behindBreaks 0 block.text.toList) = .ok ([], []) := by
    rw [behindBreaks_eq_nil hnewline]
    rfl
  rw [readLines_first hcandidate hprints.ne_nil hread hbehind, hnode, hissues]
  rfl

end Block

/-- Parsing undoes printing: the text of an annotation is read as that annotation, up to places, when
its tags and braces nest at most 64 deep; written on one line with a deeper nesting, it gives nothing
but the fault that it nests too deep. -/
theorem parse_prints {constants : Constants} {node : Node} (hprintable : node.Printable constants)
    (htop : ∃ tag, node.tag = .text tag ∧ isTopLevelTag tag = true) {block : Block}
    (hprints : node.Prints block.text.toList) :
    (node.nesting ≤ maxNesting →
      ∃ found, parse constants block = .ok ([found], []) ∧ found.unplaced = node.unplaced) ∧
      (maxNesting < node.nesting → '\n' ∉ block.text.toList →
        ∃ place, parse constants block = .ok ([], [⟨.nestedTooDeeply, place⟩])) :=
  ⟨parse_of_nesting_le hprintable htop hprints, parse_of_lt_nesting hprintable htop hprints⟩

/-- The general theorem for a tag in a namespace, with an array and a nested tag. -/
theorem parse_prints_get :
    let node : Node :=
      ⟨.text "Get", [(.text "path", .string "/a"), (.text "tags", .array [.constant "A::B",
        .number (.int (-7))])], [⟨.text "Response", [], [], 0, 0⟩], 0, 0⟩
    let block : Block :=
      { source := "api.php", symbol := .ofFile "api.php", startLine := 1, startColumn := 1, endLine := 1
        text := "@app\\Get (path=\"/a\", tags = \x7bA::B , -7,\x7d, @Response)" }
    (node.Printable [] ∧ (∃ tag, node.tag = .text tag ∧ isTopLevelTag tag = true) ∧
      node.Prints block.text.toList) ∧
      (node.nesting ≤ maxNesting →
        ∃ found, parse [] block = .ok ([found], []) ∧ found.unplaced = node.unplaced) ∧
        (maxNesting < node.nesting → '\n' ∉ block.text.toList →
          ∃ place, parse [] block = .ok ([], [⟨.nestedTooDeeply, place⟩])) := by
  intro node block
  have hpathName : IsName "path".toList := isName_of_all (by decide)
  have htagsName : IsName "tags".toList := isName_of_all (by decide)
  have hmember : IsIdentifier "A::B".toList :=
    @IsIdentifier.intro [] [] _ ["::B".toList] (.inl rfl) (by decide) (by simp)
      (by simpa using .static (isName_of_all (by decide)))
  have hseven : (-7 : Int).natAbs < tenTo Number.maxDigits := by decide +kernel
  have hprintable : node.Printable [] := by
    refine ⟨⟨_, rfl, by decide⟩, ?_, by simp, ⟨trivial, ⟨⟨hmember, by decide, rfl⟩, hseven, trivial⟩,
      trivial⟩, ⟨⟨_, rfl, by decide⟩, by simp, by simp, trivial, trivial⟩, trivial⟩
    simp only [List.forall_mem_cons]
    exact ⟨⟨_, rfl, hpathName⟩, ⟨_, rfl, htagsName⟩, by simp⟩
  have hprints : node.Prints block.text.toList := by
    have hspace : ∀ c ∈ [' '], isBlank c = true := List.all_iff_forall_prop.mp (by decide)
    have hpath : Keyed SpellsName ['='] (.text "path") "\"/a\"".toList "path=\"/a\"".toList :=
      @Keyed.intro _ _ _ _ _ [] [] _ (SpellsName.bare hpathName) (by simp)
        (List.mem_singleton.mpr rfl) (by simp)
    have htags : Keyed SpellsName ['='] (.text "tags") "\x7bA::B , -7,\x7d".toList
        "tags = \x7bA::B , -7,\x7d".toList :=
      @Keyed.intro _ _ _ _ _ [' '] [' '] '=' (SpellsName.bare htagsName) hspace
        (by decide) hspace
    have hslash : Value.Prints (.string "/a") "\"/a\"".toList :=
      .string (.plain (by decide) (by decide) (.plain (by decide) (by decide) .nil))
    have hminus : Value.Prints (.number (.int (-7))) "-7".toList :=
      .number (@IsNumeral.intro true ['-'] ['7'] (.inl ⟨rfl, rfl⟩)
        (List.all_iff_forall_prop.mp (by decide)) (by decide) (by decide))
    have hitems : Enclosed '\x7b' '\x7d' ["A::B".toList, "-7".toList] "\x7bA::B , -7,\x7d".toList :=
      @Enclosed.list _ _ [] _ _ (by simp) (@Listed.next _ _ [' '] [' '] _ _ hspace hspace
        (@Listed.trailing _ _ [] [] (by simp) (by simp)))
    have harguments : Enclosed '(' ')'
        ["path=\"/a\"".toList, "tags = \x7bA::B , -7,\x7d".toList, "@Response".toList]
        "(path=\"/a\", tags = \x7bA::B , -7,\x7d, @Response)".toList :=
      @Enclosed.list _ _ [] _ _ (by simp) (@Listed.next _ _ [] [' '] _ _ (by simp) hspace
        (@Listed.next _ _ [] [' '] _ _ (by simp) hspace (@Listed.last _ _ [] (by simp))))
    have hresponse : Node.Prints ⟨.text "Response", [], [], 0, 0⟩ "@Response".toList :=
      ⟨_, _, rfl, .base (isName_of_all (by decide)), .inl ⟨rfl, rfl, rfl⟩⟩
    refine ⟨"Get".toList, _, rfl,
      @IsTagName.within _ "app".toList _ (isName_of_all (by decide)) (.base (isName_of_all (by decide))),
      .inr ⟨[' '], _, _, _, List.all_iff_forall_prop.mp (by decide), ⟨_, _, _, rfl, hslash, hpath, _, _, _, rfl, ?_, htags, rfl⟩,
        ⟨_, _, rfl, hresponse, rfl⟩, harguments, by simp [block]⟩⟩
    exact ⟨_, ⟨_, _, rfl, .constant, _, _, rfl, hminus, rfl⟩, hitems⟩
  exact ⟨⟨hprintable, ⟨_, rfl, by decide⟩, hprints⟩,
    parse_prints hprintable ⟨_, rfl, by decide⟩ hprints⟩

end Parse

end DocCompiler.Annotation
