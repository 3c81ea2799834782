import Mathlib.Tactic.SplitIfs
import DocCompiler.Annotation.Parse

/-!
Readers with two settings. Where the settings differ only in what becomes of constants and places, no
decision of the readers depends on it: the readers with one setting give what those with the other give,
recast value by value and tag by tag.
-/

namespace DocCompiler.Annotation

/-- What is read with one setting is what is read with another, recast. -/
structure Recast (setting other : Setting) (recast : Value → Value) (recastTag : Node → Node) : Prop where
  string : ∀ text, recast (.string text) = .string text
  number : ∀ number, recast (.number number) = .number number
  word : ∀ word, Reader.wordValue setting.constants word =
    (Reader.wordValue other.constants word).map recast
  array : ∀ items, recast (.array items) = .array (items.map recast)
  mapping : ∀ entries,
    recast (.mapping entries) = .mapping (entries.map fun entry => (entry.1, recast entry.2))
  tag : ∀ node, recast (.tag node) = .tag (recastTag node)
  node : ∀ tag attributes children offset,
    recastTag ⟨tag, attributes, children, (other.place offset).line.getD 0,
        (other.place offset).column.getD 0⟩ =
      ⟨tag, attributes.map fun entry => (entry.1, recast entry.2), children.map recastTag,
        (setting.place offset).line.getD 0, (setting.place offset).column.getD 0⟩

namespace Reader

theorem map_fail {α β : Type} (f : α → β) (issue : Issue) (offset : Nat) :
    f <$> (fail issue offset : Reader α) = fail issue offset :=
  rfl

/-- A list is read like one whose items are read alike. -/
theorem items_map {σ τ : Type} (f : τ → σ) {close : Char} {unclosed : Reader σ} {open' : Reader τ}
    {endExpected : Char → Issue} {item : σ → Reader σ} {other : τ → Reader τ}
    (hunclosed : unclosed = f <$> open') (hitem : ∀ done, item (f done) = f <$> other done)
    (fuel : Nat) (done : τ) :
    items close unclosed endExpected item fuel (f done) =
      f <$> items close open' endExpected other fuel done := by
  induction fuel generalizing done with
  | zero => exact hunclosed
  | succ fuel ih =>
      rw [items, items, hitem]
      simp only [map_bind, bind_map_left]
      refine bind_congr fun done => bind_congr fun _ => bind_congr fun here => ?_
      cases here.peek? with
      | none => exact hunclosed
      | some c =>
          dsimp only
          split_ifs
          · simp only [map_bind]
            refine bind_congr fun _ => bind_congr fun _ => bind_congr fun here => ?_
            split_ifs
            · simp only [map_bind, map_pure]
            · exact ih done
          · simp only [map_bind, map_pure]
          · rfl

theorem list_map {σ τ : Type} (f : τ → σ) {close : Char} {unclosed : Reader σ} {open' : Reader τ}
    {endExpected : Char → Issue} {item : σ → Reader σ} {other : τ → Reader τ}
    (hunclosed : unclosed = f <$> open') (hitem : ∀ done, item (f done) = f <$> other done)
    (empty : τ) :
    list close unclosed endExpected item (f empty) = f <$> list close open' endExpected other empty := by
  simp only [list, map_bind]
  refine bind_congr fun _ => bind_congr fun _ => bind_congr fun here => ?_
  split_ifs
  · simp only [map_bind, map_pure]
  · exact items_map f hunclosed hitem _ empty

/-- The readers of a level give what those of another give, recast. -/
structure Inner.Recasts (recast : Value → Value) (recastTag : Node → Node) (inner below : Inner) :
    Prop where
  tag : inner.tag = recastTag <$> below.tag
  braces : inner.braces = recast <$> below.braces

/-- The attributes and nested tags read so far, recast. -/
def Arguments.recast (recast : Value → Value) (recastTag : Node → Node) (done : Arguments) : Arguments :=
  { attributes := done.attributes.map fun entry => (entry.1, recast entry.2)
    children := done.children.map recastTag }

theorem Arguments.any_recast (recast : Value → Value) (recastTag : Node → Node) (done : Arguments)
    (name : String) :
    ((done.recast recast recastTag).attributes.any fun entry => entry.1.isText name) =
      done.attributes.any fun entry => entry.1.isText name := by
  simp only [Arguments.recast, List.any_map, Function.comp_def]

/-- The items and entries read so far, recast. -/
def Entries.recast (recast : Value → Value) (done : Entries) : Entries :=
  { items := done.items.map recast
    entries := done.entries.map fun entry => (entry.1, recast entry.2) }

end Reader

namespace Recast

variable {setting other : Setting} {recast : Value → Value} {recastTag : Node → Node}
  (h : Recast setting other recast recastTag)

open Reader

include h

theorem numeralValue (literal : List Char) :
    (Reader.numeralValue literal).map recast = Reader.numeralValue literal := by
  simp only [Reader.numeralValue]
  split_ifs
  · exact congrArg Except.ok (h.number _)
  · split
    · exact congrArg Except.ok (h.number _)
    · rfl

section Level

variable {inner below : Inner} (hinner : Inner.Recasts recast recastTag inner below)

include hinner

theorem value_eq : value setting inner = recast <$> value other below := by
  simp only [value, map_bind]
  refine bind_congr fun start => ?_
  split
  · rfl
  · simp only [map_bind, map_pure, h.string]
  · exact hinner.braces
  · simp only [hinner.tag, bind_map_left, map_bind, map_pure, h.tag]
  · split_ifs
    · simp only [map_bind]
      refine bind_congr fun _ => ?_
      have hnumeral := h.numeralValue (numeral start.rest)
      cases hvalue : Reader.numeralValue (numeral start.rest) with
      | error stop => rfl
      | ok found =>
          rw [hvalue] at hnumeral
          exact congrArg (pure (f := Reader)) (Except.ok.inj hnumeral).symm
    · rfl
    · simp only [map_bind, h.word]
      refine bind_congr fun _ => ?_
      rcases wordValue other.constants (String.ofList (identifier start.rest)) with (_ | _) | _ <;> rfl

theorem argument_eq (tag : String) (done : Arguments) :
    argument setting inner tag (done.recast recast recastTag) =
      Arguments.recast recast recastTag <$> argument other below tag done := by
  simp only [argument, map_bind, Arguments.any_recast]
  refine bind_congr fun start => ?_
  split_ifs
  · simp only [hinner.tag, bind_map_left, map_bind, map_pure, Arguments.recast, List.map_append,
      List.map_cons, List.map_nil]
  · simp only [h.value_eq hinner, bind_map_left, map_bind, map_pure]
  · simp only [h.value_eq hinner, bind_map_left, map_bind, map_pure, Arguments.recast,
      List.map_append, List.map_cons, List.map_nil]
  · simp only [h.value_eq hinner, bind_map_left, map_bind, map_pure]

theorem tag_eq (nested : Bool) :
    Reader.tag setting inner nested = recastTag <$> Reader.tag other below nested := by
  simp only [Reader.tag, map_bind]
  refine bind_congr fun start => ?_
  have harguments (opening : Cursor) (name : String) :
      list ')' (fail (.unclosedArguments name) opening.offset) (.argumentEndExpected name)
          (argument setting inner name) {} =
        Arguments.recast recast recastTag <$>
          list ')' (fail (.unclosedArguments name) opening.offset) (.argumentEndExpected name)
            (argument other below name) {} :=
    list_map (Arguments.recast recast recastTag)
      (map_fail _ (.unclosedArguments name) opening.offset).symm (h.argument_eq hinner name) {}
  split_ifs
  · rfl
  all_goals
    simp only [map_bind, harguments]
    refine bind_congr fun _ => ?_
  -- Only the first goal, an unknown nested tag, notes something.
  refine bind_congr fun _ => ?_
  all_goals
    refine bind_congr fun opening => ?_
    split_ifs
    · simp only [bind_map_left, map_bind, map_pure, h.node]
      rfl
    · simp only [pure_bind, map_pure, h.node]
      rfl

theorem entry_eq (done : Entries) :
    entry setting inner (done.recast recast) = Entries.recast recast <$> entry other below done := by
  simp only [entry, h.value_eq hinner, bind_map_left, map_bind]
  refine bind_congr fun _ => bind_congr fun key => bind_congr fun _ => bind_congr fun given => ?_
  cases key <;>
    simp only [map_pure, Entries.recast, List.map_append, List.map_cons, List.map_nil]

theorem braces_eq : braces setting inner = recast <$> braces other below := by
  have hentries (offset : Nat) :
      list '\x7d' (fail .unclosedBraces offset) .braceEndExpected (entry setting inner) {} =
        Entries.recast recast <$>
          list '\x7d' (fail .unclosedBraces offset) .braceEndExpected (entry other below) {} :=
    list_map (Entries.recast recast) (map_fail _ .unclosedBraces offset).symm (h.entry_eq hinner) {}
  simp only [braces, hentries, map_bind, bind_map_left]
  refine bind_congr fun start => bind_congr fun found => ?_
  simp only [Entries.recast, List.isEmpty_map]
  split_ifs <;> simp [h.array, h.mapping]

end Level

theorem levels (depth : Nat) :
    Inner.Recasts recast recastTag (Reader.levels setting depth) (Reader.levels other depth) := by
  induction depth with
  | zero => exact ⟨rfl, rfl⟩
  | succ depth ih => exact ⟨h.tag_eq ih true, h.braces_eq ih⟩

theorem topTag : Reader.topTag setting = recastTag <$> Reader.topTag other :=
  h.tag_eq (h.levels _) false

end Recast

/-- What reading a candidate gives, recast. -/
def Outcome.recast (recastTag : Node → Node) (outcome : Outcome) : Outcome :=
  { outcome with node := outcome.node.map recastTag }

namespace Recast

variable {setting other : Setting} {recast : Value → Value} {recastTag : Node → Node}
  (h : Recast setting other recast recastTag)

include h

theorem readBare (candidate : Candidate) :
    Annotation.readBare setting candidate = ( Annotation.readBare other candidate).recast recastTag := by
  simp only [ Annotation.readBare]
  split_ifs
  · simp only [Outcome.recast, Option.map_some, h.node, List.map_nil]
  · rfl
  · rfl

theorem readTag (candidate : Candidate) :
    Annotation.readTag setting candidate =
      ( Annotation.readTag other candidate).map (Outcome.recast recastTag) := by
  have hrun : (Reader.topTag setting).run { cursor := candidate.start } =
      ((Reader.topTag other).run { cursor := candidate.start }).map
        fun found => (recastTag found.1, found.2) := by
    rw [h.topTag, StateT.run_map]
    rfl
  rw [ Annotation.readTag, Annotation.readTag, hrun]
  cases (Reader.topTag other).run { cursor := candidate.start } with
  | error stop => cases stop <;> rfl
  | ok found =>
      simp only [Except.map, Outcome.recast, Except.ok.injEq, Outcome.mk.injEq, and_true]
      split_ifs <;> rfl

theorem readCandidate (candidate : Candidate) :
    Annotation.readCandidate setting candidate =
      ( Annotation.readCandidate other candidate).map (Outcome.recast recastTag) := by
  simp only [ Annotation.readCandidate]
  split_ifs
  · exact h.readTag candidate
  · exact congrArg Except.ok (h.readBare candidate)

/-- Which lines are read, and from where reading goes on, is the same. -/
theorem readLines (resume : Resume) (lines : List Cursor) :
    Annotation.readLines setting resume lines =
      ( Annotation.readLines other resume lines).map fun found => (found.1.map recastTag, found.2) := by
  induction lines generalizing resume with
  | nil => rfl
  | cons line rest ih =>
      rw [ Annotation.readLines, Annotation.readLines]
      cases (candidate? line).filter resume.admits with
      | none => exact ih resume
      | some candidate =>
          dsimp only
          rw [h.readCandidate]
          cases Annotation.readCandidate other candidate with
          | error number => rfl
          | ok outcome =>
              change ( Annotation.readLines setting outcome.resume rest >>= _) = _
              rw [ih]
              change _ = Except.map _ ( Annotation.readLines other outcome.resume rest >>= _)
              cases Annotation.readLines other outcome.resume rest with
              | error number => rfl
              | ok found =>
                  change Except.ok (_ ++ _, _) = Except.ok (_, _)
                  rw [List.map_append, Outcome.recast, Option.toList_map]

end Recast

end DocCompiler.Annotation
