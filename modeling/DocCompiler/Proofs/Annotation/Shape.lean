import DocCompiler.Proofs.Annotation.Productions
import DocCompiler.Proofs.Annotation.Restart

/-!
The shape of what is parsed. All that is given for a doc comment is written in its text; tags, attributes
and constants in it are as they may be, at any depth; and a tag with arguments gives one annotation or
faults.
-/

namespace DocCompiler.Annotation

open Text

/-- What an annotation of a text is like. -/
structure Node.Shaped (constants : Constants) (text : List Char) (node : Node) : Prop where
  named : ∃ name, node.tag = .text name ∧ isTopLevelTag name = true
  tags : node.Tags Node.Sound
  leaves : node.Leaves (LeafKind.Unlisted constants)
  written : ∃ piece, piece <:+: text ∧ node.Written constants piece
  nesting : constants = [] → node.nesting ≤ maxNesting

/-- One annotation without faults, or faults without an annotation. -/
def Outcome.OneOrFaults (outcome : Outcome) : Prop :=
  (∃ node, outcome.node = some node) ∧ outcome.issues = [] ∨ outcome.node = none ∧ outcome.issues ≠ []

theorem oneOrFaults_of_isEmpty (node : Node) (issues : List (Issue × Nat)) (resume : Resume) :
    Outcome.OneOrFaults ⟨if issues.isEmpty then some node else none, issues, resume⟩ := by
  cases issues with
  | nil => exact .inl ⟨⟨node, rfl⟩, rfl⟩
  | cons => exact .inr ⟨rfl, List.cons_ne_nil _ _⟩

theorem Candidate.HasArguments.oneOrFaults {setting : Setting} {candidate : Candidate} {outcome : Outcome}
    (harguments : candidate.HasArguments) (h : readCandidate setting candidate = .ok outcome) :
    outcome.OneOrFaults := by
  rw [readCandidate, if_pos (by simpa [Candidate.HasArguments] using harguments), readTag] at h
  split at h
  · cases h
  · obtain rfl := Except.ok.inj h
    exact .inr ⟨rfl, List.cons_ne_nil _ _⟩
  · obtain rfl := Except.ok.inj h
    exact oneOrFaults_of_isEmpty _ _ _

section Lines

variable {setting : Setting} {text : List Char}

/-- What is written and has a known tag that may stand on its own has the shape of an annotation. -/
theorem Node.Written.shaped {constants : Constants} {node : Node} {name : String} {piece : List Char}
    (h : node.Written constants piece) (htag : node.tag = .text name) (hname : isTopLevelTag name = true)
    (hpiece : piece <:+: text) (hnesting : constants = [] → node.nesting ≤ maxNesting) :
    node.Shaped constants text := by
  have hknown : isKnownTag name = true := (Bool.and_eq_true_iff.mp hname).1
  obtain ⟨htags, hleaves⟩ := Node.Written.sound node ⟨name, htag, hknown⟩ h
  exact ⟨⟨name, htag, hname⟩, htags, hleaves, ⟨piece, hpiece, h⟩, hnesting⟩

/-- A tag without arguments is written by its mark and its name. -/
theorem written_bare {constants : Constants} {name : List Char} {base : List Char}
    (hname : IsTagName base name) (line column : Int) :
    Node.Written constants ⟨.text (baseName name), [], [], line, column⟩ ('@' :: name) :=
  ⟨List.nodup_nil, base, name, by rw [hname.baseName_eq], hname, .inl ⟨rfl, rfl, rfl⟩⟩

theorem shaped_of_readCandidate {line : Cursor} {candidate : Candidate} {outcome : Outcome} {node : Node}
    (hcandidate : candidate? line = some candidate) (hline : line.Within text)
    (h : readCandidate setting candidate = .ok outcome) (hnode : outcome.node = some node) :
    node.Shaped setting.constants text := by
  obtain ⟨hinside, hpeek⟩ := candidate?_inside hcandidate hline
  obtain ⟨blanks, rest, -, -, hstart, hname, hsome⟩ := candidate?_spec hcandidate
  have hwithin {piece : List Char} (hpiece : piece <+: candidate.start.rest) : piece <:+: text :=
    hpiece.isInfix.trans (hinside.within ▸ (List.drop_suffix _ _).isInfix)
  obtain ⟨htop, ⟨later, hrun, hproblems⟩ | rfl⟩ := node_of_readCandidate h hnode
  · have hconsumes : Consumes _ _ _ ((Reader.topTag setting).run { cursor := candidate.start }) :=
      Reader.topTag_consumes hinside hpeek
    rw [hrun] at hconsumes
    cases hconsumes with
    | @ok _ _ part noted hpart hnoted hfound =>
        obtain ⟨htag, hfound⟩ := hfound
        obtain rfl : noted = [] := hnoted.symm.trans hproblems
        rw [hstart] at htag
        rw [hname] at htop
        exact (hfound.written rfl).shaped htag htop (hwithin ⟨_, hpart.rest.symm⟩) (hfound.nesting rfl)
  · obtain ⟨base, more, hmore, hbase⟩ := tagName_spec hsome
    rw [← hname] at hbase hmore
    refine (written_bare hbase _ _).shaped rfl htop (hwithin ⟨more, ?_⟩) fun _ => Nat.le_of_ble_eq_true rfl
    rw [hstart, List.cons_append, ← hmore]

end Lines

/-- The shape of what is parsed. Each annotation is named by a tag that may stand on its own; all tags
in it are known and name their attributes once; its constants are those that the table does not have; it
is what a part of the text says, with braces that are arrays or mappings of all that stands in them; and
with an empty table it nests no deeper than is allowed. Each tag with arguments that parsing comes to
gives one annotation and no fault, or faults and no annotation. -/
theorem parse_shape {constants : Constants} {block : Block} {nodes : List Node} {errors : List ParseError}
    (h : parse constants block = .ok (nodes, errors)) :
    (∀ node ∈ nodes, node.Shaped constants block.text.toList) ∧
    ∀ before issues candidate, Meets ⟨constants, block.location⟩ {} (lineStarts 0 block.text.toList)
        before issues candidate → candidate.HasArguments →
      ∃ outcome later laterErrors, readCandidate ⟨constants, block.location⟩ candidate = .ok outcome ∧
        outcome.OneOrFaults ∧ nodes = before ++ outcome.node.toList ++ later ∧
          errors = errorsIn block (issues ++ outcome.issues) ++ laterErrors := by
  constructor
  · obtain ⟨⟨found, issues⟩, hlines, hrest⟩ := Result.bind_eq_ok_iff.mp h
    obtain ⟨rfl, rfl⟩ := Prod.mk.inj (Except.ok.inj hrest)
    exact forall_of_readLines (fun line hline _ _ _ hcandidate =>
      shaped_of_readCandidate hcandidate (within_of_mem_lineStarts hline)) hlines
  · intro before issues candidate hmeets harguments
    obtain ⟨outcome, houtcome⟩ := hmeets.exists_outcome h
    rw [hmeets.parse_eq houtcome] at h
    obtain ⟨later, -, hlater⟩ := Result.map_eq_ok_iff.mp h
    obtain ⟨rfl, rfl⟩ := Prod.mk.inj hlater
    exact ⟨outcome, _, _, houtcome, harguments.oneOrFaults houtcome, rfl, rfl⟩

/-- The general theorem for a tag with a value that has no name, and for one with a mapping, an array, a
nested tag and constants in it. -/
theorem parse_shape_get :
    let constants : Constants := [("LIMIT", .number (.int 5))]
    let block : Block :=
      { source := "api.php", symbol := .ofFile "api.php", startLine := 1, startColumn := 1, endLine := 2
        text := "@Tag(1)\n@Get(path=\"/a\", x=\x7bb: \x7b1, LIMIT, @Items\x7d, \"c\" = Limit\x7d)" }
    let failing : Candidate := ⟨0, ⟨0, block.text.toList⟩, "Tag".toList⟩
    ∃ node error, parse constants block = .ok ([node], [error]) ∧
      node.Shaped constants block.text.toList ∧
        ∃ outcome, readCandidate ⟨constants, block.location⟩ failing = .ok outcome ∧
          outcome.node = none ∧ outcome.issues ≠ [] := by
  intro constants block failing
  have hone : (match parse constants block with
      | .ok (nodes, errors) => nodes.length == 1 && errors.length == 1
      | .error _ => false) = true := by
    decide +kernel
  obtain ⟨node, error, hparse⟩ : ∃ node error, parse constants block = .ok ([node], [error]) := by
    split at hone
    · rename_i nodes errors hparse
      rw [Bool.and_eq_true, beq_iff_eq, beq_iff_eq, List.length_eq_one_iff, List.length_eq_one_iff] at hone
      obtain ⟨⟨node, rfl⟩, error, rfl⟩ := hone
      exact ⟨node, error, hparse⟩
    · exact absurd hone (by decide)
  have hmeets : Meets ⟨constants, block.location⟩ {} (lineStarts 0 block.text.toList) [] [] failing := by
    rw [show lineStarts 0 block.text.toList = [⟨0, block.text.toList⟩,
      ⟨8, block.text.toList.drop 8⟩] by decide +kernel]
    exact .here (by decide +kernel)
  obtain ⟨hshaped, houtcomes⟩ := parse_shape hparse
  obtain ⟨outcome, later, laterErrors, houtcome, hone, -⟩ := houtcomes _ _ _ hmeets (by decide +kernel)
  have hnone : (readCandidate ⟨constants, block.location⟩ failing).map (·.node.isNone) = .ok true := by
    decide +kernel
  rw [houtcome] at hnone
  have hnone : outcome.node = none := Option.isNone_iff_eq_none.mp (Except.ok.inj hnone)
  obtain ⟨⟨other, hother⟩, -⟩ | ⟨-, hissues⟩ := hone
  · rw [hnone] at hother
    cases hother
  · exact ⟨node, error, hparse, hshaped node List.mem_cons_self, outcome, houtcome, hnone, hissues⟩

end DocCompiler.Annotation
