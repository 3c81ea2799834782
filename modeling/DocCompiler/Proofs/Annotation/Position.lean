import DocCompiler.Proofs.Annotation.Mark
import DocCompiler.Proofs.Source.Place

/-!
The places of annotations. Readers stay in their text, and each tag that they give has its mark and its
name at the place that it is given. In the source of a doc comment, the same characters stand there.
-/

namespace DocCompiler.Annotation

open Text

/-- A cursor stands in a text. -/
def Cursor.Within (text : List Char) (cursor : Cursor) : Prop :=
  cursor.rest = text.drop cursor.offset

namespace Cursor.Within

variable {text : List Char} {cursor : Cursor}

theorem advance (h : cursor.Within text) (count : Nat) : (cursor.advance count).Within text := by
  rw [Within, Cursor.advance, h, List.drop_drop]

theorem skipBlanks (h : cursor.Within text) : cursor.skipBlanks.Within text :=
  h.advance _

theorem skipInlineBlanks (h : cursor.Within text) : cursor.skipInlineBlanks.Within text :=
  h.advance _

end Cursor.Within

/-- What a reader finds has a property, and the reader ends in the text. -/
def Gives {α : Type} (text : List Char) (post : α → Prop) (result : Except Stop (α × ReadState)) : Prop :=
  ∀ found later, result = .ok (found, later) → post found ∧ later.cursor.Within text

namespace Gives

variable {α β : Type} {text : List Char} {post : α → Prop} {post' : β → Prop} {state : ReadState}

theorem ok {found : α} (hpost : post found) (hstate : state.cursor.Within text) :
    Gives text post (.ok (found, state)) := by
  intro result later h
  obtain ⟨rfl, rfl⟩ := Prod.mk.inj (Except.ok.inj h)
  exact ⟨hpost, hstate⟩

theorem error {stop : Stop} : Gives text post (.error stop) :=
  nofun

theorem bind {reader : Reader α} {next : α → Reader β} (h : Gives text post (reader.run state))
    (hnext : ∀ found later, post found → later.cursor.Within text →
      Gives text post' ((next found).run later)) :
    Gives text post' ((reader >>= next).run state) := by
  intro result last hrun
  rw [StateT.run_bind] at hrun
  obtain ⟨⟨found, later⟩, hfound, hlast⟩ := Result.bind_eq_ok_iff.mp hrun
  obtain ⟨hpost, hwithin⟩ := h found later hfound
  exact hnext found later hpost hwithin result last hlast

theorem imp {post' : α → Prop} {result : Except Stop (α × ReadState)} (h : Gives text post result)
    (himp : ∀ found, post found → post' found) : Gives text post' result :=
  fun found later hrun => ⟨himp found (h found later hrun).1, (h found later hrun).2⟩

end Gives

namespace Reader

section Readers

variable {setting : Setting} {text : List Char} {inner : Inner} {state : ReadState}

theorem note_gives {issue : Issue} {offset : Nat} (h : state.cursor.Within text) :
    Gives text (fun _ => True) ((note issue offset).run state) :=
  .ok trivial h

theorem string_gives (h : state.cursor.Within text) : Gives text (fun _ => True) (string.run state) := by
  rw [string, run_cursor_bind]
  split
  · exact .error
  · rw [run_advance_bind]
    exact .ok trivial (h.advance _)

section List

variable {σ : Type} {close : Char} {unclosed : Reader σ} {endExpected : Char → Issue}
  {item : σ → Reader σ} {post : σ → Prop} (hunclosed : ∀ state, Gives text post (unclosed.run state))
  (hitem : ∀ done, post done → ∀ state : ReadState, state.cursor.Within text →
    Gives text post ((item done).run state))

include hunclosed hitem

/-- What holds of what was read so far and is kept by each item holds of a list. -/
theorem items_gives {fuel : Nat} {done : σ} (hdone : post done) (h : state.cursor.Within text) :
    Gives text post ((items close unclosed endExpected item fuel done).run state) := by
  induction fuel generalizing done state with
  | zero => exact hunclosed state
  | succ fuel ih =>
      rw [items]
      refine (hitem done hdone state h).bind fun done later hdone hlater => ?_
      rw [run_skipBlanks_bind, run_cursor_bind]
      split
      · exact hunclosed _
      · split_ifs
        · rw [run_advance_bind, run_skipBlanks_bind, run_cursor_bind]
          split_ifs
          · exact .ok hdone (((hlater.skipBlanks.advance _).skipBlanks).advance _)
          · exact ih hdone (hlater.skipBlanks.advance _).skipBlanks
        · exact .ok hdone (hlater.skipBlanks.advance _)
        · exact .error

theorem list_gives {empty : σ} (hempty : post empty) (h : state.cursor.Within text) :
    Gives text post ((list close unclosed endExpected item empty).run state) := by
  rw [list, run_advance_bind, run_skipBlanks_bind, run_cursor_bind]
  split_ifs
  · exact .ok hempty ((h.advance _).skipBlanks.advance _)
  · exact items_gives hunclosed hitem hempty (h.advance _).skipBlanks

end List

/-- The readers of nested tags and of braces give tags with their marks in a text. -/
structure Inner.Marks (setting : Setting) (text : List Char) (inner : Inner) : Prop where
  tag : ∀ state : ReadState, state.cursor.Within text → state.cursor.peek? = some '@' →
    Gives text (Node.Tags (Node.Marked text setting.place)) (inner.tag.run state)
  braces : ∀ state : ReadState, state.cursor.Within text →
    Gives text (Value.Tags (Node.Marked text setting.place)) (inner.braces.run state)

theorem wordValue_tags {constants : Constants} {word : String} {p : Node → Prop} {value : Value}
    (h : wordValue constants word = .ok value) : value.Tags p := by
  simp only [wordValue] at h
  split_ifs at h
  · obtain rfl := Except.ok.inj h
    trivial
  · obtain rfl := Except.ok.inj h
    trivial
  · obtain rfl := Except.ok.inj h
    trivial
  · split at h
    · obtain rfl := Except.ok.inj h
      trivial
    · exact Value.tags_of_ofDatum _ h

theorem numeralValue_gives {literal : List Char} {p : Node → Prop} (h : state.cursor.Within text) :
    Gives text (Value.Tags p) ((numeralValue literal : Reader Value).run state) := by
  intro value later hrun
  obtain ⟨found, hfound, hlater⟩ := Result.bind_eq_ok_iff.mp hrun
  obtain ⟨rfl, rfl⟩ := Prod.mk.inj (Except.ok.inj hlater)
  refine ⟨?_, h⟩
  simp only [numeralValue] at hfound
  split_ifs at hfound
  · obtain rfl := Except.ok.inj hfound
    trivial
  · split at hfound
    · obtain rfl := Except.ok.inj hfound
      trivial
    · cases hfound

theorem value_gives (hinner : inner.Marks setting text) (h : state.cursor.Within text) :
    Gives text (Value.Tags (Node.Marked text setting.place)) ((value setting inner).run state) := by
  rw [value, run_cursor_bind]
  split
  · exact .error
  · exact (string_gives h).bind fun found later _ hlater => .ok trivial hlater
  · exact hinner.braces state h
  · rename_i hpeek
    exact (hinner.tag state h hpeek).bind fun found later hfound hlater => .ok hfound hlater
  · dsimp only
    split_ifs
    · rw [run_advance_bind]
      exact numeralValue_gives (h.advance _)
    · exact .error
    · rw [run_advance_bind]
      split
      · rename_i found hword
        exact .ok (wordValue_tags hword) (h.advance _)
      · exact .error
      · exact .error

/-- The tags in the arguments read so far have their marks in a text. -/
def Arguments.Marked (text : List Char) (place : Nat → Location) (done : Arguments) : Prop :=
  Value.EntryTags (Node.Marked text place) done.attributes ∧
    Node.AllTags (Node.Marked text place) done.children

theorem argument_gives (hinner : inner.Marks setting text) {tag : String} {done : Arguments}
    (hdone : done.Marked text setting.place) (h : state.cursor.Within text) :
    Gives text (Arguments.Marked text setting.place) ((argument setting inner tag done).run state) := by
  have hmoved := ((h.advance (simpleName state.cursor.rest).length).skipBlanks.advance 1).skipBlanks
  rw [argument, run_cursor_bind]
  dsimp only
  split_ifs with hpeek
  · refine (hinner.tag state h (by simpa using hpeek)).bind fun found later hfound hlater => ?_
    exact .ok ⟨hdone.1, Node.allTags_append.mpr ⟨hdone.2, hfound, trivial⟩⟩ hlater
  · rw [run_moveTo_bind]
    refine (value_gives hinner hmoved).bind fun given later hgiven hlater => ?_
    exact (note_gives hlater).bind fun _ last _ hlast => .ok hdone hlast
  · rw [run_moveTo_bind]
    refine (value_gives hinner hmoved).bind fun given later hgiven hlater => ?_
    exact .ok ⟨Value.entryTags_append.mpr ⟨hdone.1, hgiven, trivial⟩, hdone.2⟩ hlater
  · refine (value_gives hinner h).bind fun given later hgiven hlater => ?_
    exact (note_gives hlater).bind fun _ last _ hlast => .ok hdone hlast

/-- A tag with its name and its arguments stands at the offset of its mark. -/
theorem Arguments.Marked.placedAt {place : Nat → Location} {offset : Nat} {rest : List Char}
    {arguments : Arguments} (h : arguments.Marked text place) (hrest : text.drop offset = '@' :: rest)
    (hname : tagName rest ≠ []) :
    Node.PlacedAt text place offset
      { tag := .text (baseName (tagName rest)), attributes := arguments.attributes
        children := arguments.children, line := (place offset).line.getD 0
        column := (place offset).column.getD 0 } := by
  obtain ⟨base, behind, hbehind, hbase⟩ := tagName_spec hname
  have hmarked : Node.MarkedAt text place offset
      { tag := .text (baseName (tagName rest)), attributes := arguments.attributes
        children := arguments.children, line := (place offset).line.getD 0
        column := (place offset).column.getD 0 } :=
    ⟨⟨base, tagName rest, behind, by rw [hrest, ← hbehind], by rw [hbase.baseName_eq], hbase⟩, rfl, rfl⟩
  exact ⟨hmarked, ⟨offset, hmarked⟩, h⟩

/-- A tag has its mark and its name where the reader starts, and so have the tags nested in it. -/
theorem tag_gives (hinner : inner.Marks setting text) (nested : Bool) (h : state.cursor.Within text)
    (hpeek : state.cursor.peek? = some '@') :
    Gives text (Node.PlacedAt text setting.place state.cursor.offset)
      ((tag setting inner nested).run state) := by
  obtain ⟨rest, hrest⟩ : ∃ rest, state.cursor.rest = '@' :: rest := by
    rwa [Cursor.peek?, List.head?_eq_some_iff] at hpeek
  have hlist {name : String} {opening : Cursor} {later : ReadState} (hlater : later.cursor.Within text) :
      Gives text (Arguments.Marked text setting.place)
        ((list ')' (fail (.unclosedArguments name) opening.offset) (.argumentEndExpected name)
          (argument setting inner name) {}).run later) :=
    list_gives (fun _ => .error) (fun _ hdone _ h => argument_gives hinner hdone h) ⟨trivial, trivial⟩ hlater
  rw [tag, run_cursor_bind]
  dsimp only
  rw [hrest, List.drop_succ_cons, List.drop_zero]
  split_ifs with hempty hunknown
  · exact .error
  all_goals
    have hname : tagName rest ≠ [] := by simpa using hempty
    have hoffset : text.drop state.cursor.offset = '@' :: rest := by rw [← h, hrest]
    rw [run_advance_bind]
  -- Only a nested tag that is not known is noted.
  on_goal 1 => refine (note_gives (h.advance _)).bind fun _ later _ hlater => ?_
  on_goal 2 => have hlater := h.advance ((tagName rest).length + 1)
  all_goals
    rw [run_cursor_bind]
    split_ifs
    · rw [run_moveTo_bind]
      refine (hlist hlater.skipInlineBlanks).bind fun arguments last harguments hlast => ?_
      exact .ok (harguments.placedAt hoffset hname) hlast
    · exact .ok (Arguments.Marked.placedAt ⟨trivial, trivial⟩ hoffset hname) hlater

/-- The tags in the items and entries read so far have their marks in a text. -/
def Entries.Marked (text : List Char) (place : Nat → Location) (done : Entries) : Prop :=
  Value.AllTags (Node.Marked text place) done.items ∧
    Value.EntryTags (Node.Marked text place) done.entries

theorem entryKey_gives (h : state.cursor.Within text) :
    Gives text (fun _ => True) (entryKey?.run state) := by
  rw [entryKey?, run_cursor_bind]
  split_ifs
  · refine (string_gives h).bind fun found later _ hlater => ?_
    rw [pure_bind, run_cursor_bind]
    dsimp only
    split
    · exact .ok trivial h
    · split_ifs
      · exact .ok trivial (hlater.skipBlanks.advance _)
      · exact .ok trivial h
    · exact .ok trivial h
  · rw [run_advance_bind, pure_bind, run_cursor_bind]
    dsimp only
    split
    · exact .ok trivial h
    · split_ifs
      · exact .ok trivial ((h.advance _).skipBlanks.advance _)
      · exact .ok trivial h
    · exact .ok trivial h

theorem entry_gives (hinner : inner.Marks setting text) {done : Entries}
    (hdone : done.Marked text setting.place) (h : state.cursor.Within text) :
    Gives text (Entries.Marked text setting.place) ((entry setting inner done).run state) := by
  rw [entry, run_skipBlanks_bind]
  refine (entryKey_gives h.skipBlanks).bind fun key later _ hlater => ?_
  rw [run_skipBlanks_bind]
  refine (value_gives hinner hlater.skipBlanks).bind fun given last hgiven hlast => ?_
  cases key with
  | none => exact .ok ⟨Value.allTags_append.mpr ⟨hdone.1, hgiven, trivial⟩, hdone.2⟩ hlast
  | some key => exact .ok ⟨hdone.1, Value.entryTags_append.mpr ⟨hdone.2, hgiven, trivial⟩⟩ hlast

theorem braces_gives (hinner : inner.Marks setting text) (h : state.cursor.Within text) :
    Gives text (Value.Tags (Node.Marked text setting.place)) ((braces setting inner).run state) := by
  rw [braces, run_cursor_bind]
  have hlist : Gives text (Entries.Marked text setting.place)
      ((list '\x7d' (fail .unclosedBraces state.cursor.offset) .braceEndExpected
        (entry setting inner) {}).run state) :=
    list_gives (fun _ => .error) (fun _ hdone _ h => entry_gives hinner hdone h) ⟨trivial, trivial⟩ h
  refine hlist.bind fun found later hfound hlater => ?_
  split_ifs
  · exact (note_gives hlater).bind fun _ last _ hlast => .ok hfound.1 hlast
  · exact .ok hfound.1 hlater
  · exact (note_gives hlater).bind fun _ last _ hlast => .ok hfound.2 hlast
  · exact .ok hfound.2 hlater

/-- On every level, the tags that are read have their marks in the text. -/
theorem levels_marks (setting : Setting) (text : List Char) (depth : Nat) :
    (levels setting depth).Marks setting text := by
  induction depth with
  | zero => exact ⟨fun _ _ _ => .error, fun _ _ => .error⟩
  | succ depth ih =>
      exact ⟨fun _ h hpeek => (tag_gives ih true h hpeek).imp fun _ hnode => hnode.2,
        fun _ h => braces_gives ih h⟩

end Readers

end Reader

end DocCompiler.Annotation
