import DocCompiler.Proofs.Annotation.Leaves
import DocCompiler.Proofs.Annotation.Mark
import DocCompiler.Proofs.Annotation.Print
import Mathlib.Data.List.Forall2

/-!
What a text of the annotation language says. A tree is written by a text when every tag, value and
entry in it stands there, in order, and nothing else does: braces are an array when all that stands in
them is without a key, and a mapping when all of it has one. Constants of a table stand for their values.
-/

namespace DocCompiler.Annotation

open Text

/-- The tag is one that annotations may have. -/
def Node.IsKnown (node : Node) : Prop :=
  ∃ name, node.tag = .text name ∧ isKnownTag name = true

/-- A text in quotes, from behind its opening quote up to its closing one. -/
def IsQuoted (body text : List Char) : Prop :=
  ∃ behind, stringBody (text ++ behind) = some (body, text.length)

/-- A key of a mapping, bare or in quotes. -/
inductive IsKey : Datum → List Char → Prop
  | bare {name : List Char} (hname : IsName name) : IsKey (.text (String.ofList name)) name
  | quoted {body text : List Char} (htext : IsQuoted body text) :
      IsKey (.text (String.ofList body)) ('"' :: text)

/-- A value that is one word: a text in quotes, a numeral, a keyword, a constant of a table, or a
constant that the table does not have. -/
inductive IsWord (constants : Constants) : Value → List Char → Prop
  | quoted {body text : List Char} (htext : IsQuoted body text) :
      IsWord constants (.string (String.ofList body)) ('"' :: text)
  | numeral {value : Value} {text behind : List Char} (htext : numeral (text ++ behind) = text)
      (hsome : text ≠ []) (hvalue : Reader.numeralValue text = .ok value) :
      IsWord constants value text
  | identifier {value : Value} {text behind : List Char} (htext : identifier (text ++ behind) = text)
      (hsome : text ≠ []) (hvalue : Reader.wordValue constants (String.ofList text) = .ok value) :
      IsWord constants value text

/-- Two lists as one, each in its order. -/
inductive Interleaved {α : Type} : List α → List α → List α → Prop
  | nil : Interleaved [] [] []
  | left {item : α} {first second all : List α} (h : Interleaved first second all) :
      Interleaved (item :: first) second (item :: all)
  | right {item : α} {first second all : List α} (h : Interleaved first second all) :
      Interleaved first (item :: second) (item :: all)

section Written

variable (constants : Constants)

mutual

/-- A text says a value. -/
def Value.Written : Value → List Char → Prop
  | .leaf kind data, text => IsWord constants (.leaf kind data) text
  | .array items, text =>
      IsWord constants (.array items) text ∨
        ∃ pieces, Value.EachWritten items pieces ∧ Enclosed '\x7b' '\x7d' pieces text
  | .mapping entries, text =>
      IsWord constants (.mapping entries) text ∨
        entries ≠ [] ∧ ∃ pieces, Value.EntriesWritten IsKey [':', '='] entries pieces ∧
          Enclosed '\x7b' '\x7d' pieces text
  | .tag node, text => node.IsKnown ∧ Node.Written node text

/-- Texts say values, one by one. -/
def Value.EachWritten : List Value → List (List Char) → Prop
  | [], pieces => pieces = []
  | item :: rest, pieces =>
      ∃ piece later, pieces = piece :: later ∧ Value.Written item piece ∧ Value.EachWritten rest later

/-- Texts say entries, one by one. -/
def Value.EntriesWritten (spells : Datum → List Char → Prop) (marks : List Char) :
    List (Datum × Value) → List (List Char) → Prop
  | [], pieces => pieces = []
  | (key, item) :: rest, pieces =>
      ∃ value piece later, pieces = piece :: later ∧ Value.Written item value ∧
        Keyed spells marks key value piece ∧ Value.EntriesWritten spells marks rest later

/-- A text says an annotation: its tag behind the mark, and its arguments, if any, behind spaces and
tabs. No two attributes have the same name. -/
def Node.Written : Node → List Char → Prop
  | ⟨tag, attributes, children, _, _⟩, text =>
      (attributes.map (·.1)).Nodup ∧
        ∃ base name, tag = .text (String.ofList base) ∧ IsTagName base name ∧
          (attributes = [] ∧ children = [] ∧ text = '@' :: name ∨
            ∃ inlineBlanks parts nested pieces arguments,
              (∀ c ∈ inlineBlanks, isInlineBlank c = true) ∧
                Value.EntriesWritten SpellsName ['='] attributes parts ∧
                  Node.EachWritten children nested ∧ Interleaved parts nested pieces ∧
                    Enclosed '(' ')' pieces arguments ∧
                      text = '@' :: (name ++ (inlineBlanks ++ arguments)))

/-- Texts say nested annotations, one by one. -/
def Node.EachWritten : List Node → List (List Char) → Prop
  | [], pieces => pieces = []
  | node :: rest, pieces =>
      ∃ piece later, pieces = piece :: later ∧ node.IsKnown ∧ Node.Written node piece ∧
        Node.EachWritten rest later

end

end Written

section Lists

variable {constants : Constants} {pieces others : List (List Char)} {piece : List Char}

theorem Value.eachWritten_append {items : List Value} {item : Value}
    (h : Value.EachWritten constants items pieces) (hitem : item.Written constants piece) :
    Value.EachWritten constants (items ++ [item]) (pieces ++ [piece]) := by
  induction items generalizing pieces with
  | nil =>
      obtain rfl : pieces = [] := h
      exact ⟨piece, [], rfl, hitem, rfl⟩
  | cons first rest ih =>
      obtain ⟨text, later, rfl, hfirst, hrest⟩ := h
      exact ⟨text, later ++ [piece], rfl, hfirst, ih hrest⟩

theorem Value.entriesWritten_append {spells : Datum → List Char → Prop} {marks : List Char}
    {entries : List (Datum × Value)} {key : Datum} {value : Value} {text : List Char}
    (h : Value.EntriesWritten constants spells marks entries pieces) (hvalue : value.Written constants text)
    (hkeyed : Keyed spells marks key text piece) :
    Value.EntriesWritten constants spells marks (entries ++ [(key, value)]) (pieces ++ [piece]) := by
  induction entries generalizing pieces with
  | nil =>
      obtain rfl : pieces = [] := h
      exact ⟨text, piece, [], rfl, hvalue, hkeyed, rfl⟩
  | cons first rest ih =>
      obtain ⟨found, other, later, rfl, hfirst, hpiece, hrest⟩ := h
      exact ⟨found, other, later ++ [piece], rfl, hfirst, hpiece, ih hrest⟩

theorem Node.eachWritten_append {nodes : List Node} {node : Node}
    (h : Node.EachWritten constants nodes pieces) (hknown : node.IsKnown)
    (hnode : node.Written constants piece) :
    Node.EachWritten constants (nodes ++ [node]) (pieces ++ [piece]) := by
  induction nodes generalizing pieces with
  | nil =>
      obtain rfl : pieces = [] := h
      exact ⟨piece, [], rfl, hknown, hnode, rfl⟩
  | cons first rest ih =>
      obtain ⟨text, later, rfl, hfirst, hwritten, hrest⟩ := h
      exact ⟨text, later ++ [piece], rfl, hfirst, hwritten, ih hrest⟩

namespace Interleaved

variable {α : Type} {item : α} {first second all : List α}

theorem left_append (h : Interleaved first second all) :
    Interleaved (first ++ [item]) second (all ++ [item]) := by
  induction h with
  | nil => exact .left .nil
  | left _ ih => exact .left ih
  | right _ ih => exact .right ih

theorem right_append (h : Interleaved first second all) :
    Interleaved first (second ++ [item]) (all ++ [item]) := by
  induction h with
  | nil => exact .right .nil
  | left _ ih => exact .left ih
  | right _ ih => exact .right ih

theorem eq_of_right_nil (h : Interleaved first [] all) : first = all := by
  generalize hsecond : ([] : List α) = second at h
  induction h with
  | nil => rfl
  | left _ ih => rw [ih hsecond]
  | right => cases hsecond

theorem eq_of_left_nil (h : Interleaved [] second all) : second = all := by
  generalize hfirst : ([] : List α) = first at h
  induction h with
  | nil => rfl
  | left => cases hfirst
  | right _ ih => rw [ih hfirst]

end Interleaved

end Lists

section Leaves

variable {admits : LeafKind → Datum → Prop}

mutual

/-- In the value of a constant no leaf is a constant. -/
theorem Value.leaves_of_ofDatum (hadmits : ∀ kind data, kind ≠ .constant → admits kind data) :
    (datum : Datum) → {value : Value} → Value.ofDatum datum = .ok value → value.Leaves admits
  | .null, _, h | .bool _, _, h | .number _, _, h | .text _, _, h | .codes _, _, h => by
      obtain rfl := Except.ok.inj h
      exact hadmits _ _ nofun
  | .map entries, _, h => by
      rw [Value.ofDatum] at h
      obtain ⟨found, hfound, rfl⟩ := Result.map_eq_ok_iff.mp h
      exact Value.entryLeaves_of_ofDatum hadmits entries hfound
  | .list items, _, h => by
      rw [Value.ofDatum] at h
      obtain ⟨found, hfound, rfl⟩ := Result.map_eq_ok_iff.mp h
      exact Value.allLeaves_of_ofDatum hadmits items hfound
  | .pair first second, _, h => by
      rw [Value.ofDatum] at h
      obtain ⟨one, hone, h⟩ := Result.bind_eq_ok_iff.mp h
      obtain ⟨two, htwo, h⟩ := Result.bind_eq_ok_iff.mp h
      obtain rfl := Except.ok.inj h
      exact ⟨Value.leaves_of_ofDatum hadmits first hone, Value.leaves_of_ofDatum hadmits second htwo,
        trivial⟩

theorem Value.allLeaves_of_ofDatum (hadmits : ∀ kind data, kind ≠ .constant → admits kind data) :
    (items : List Datum) → {values : List Value} → Value.ofDatumItems items = .ok values →
      Value.AllLeaves admits values
  | [], _, h => by
      obtain rfl := Except.ok.inj h
      trivial
  | item :: rest, _, h => by
      rw [Value.ofDatumItems] at h
      obtain ⟨value, hvalue, h⟩ := Result.bind_eq_ok_iff.mp h
      obtain ⟨values, hvalues, h⟩ := Result.bind_eq_ok_iff.mp h
      obtain rfl := Except.ok.inj h
      exact ⟨Value.leaves_of_ofDatum hadmits item hvalue,
        Value.allLeaves_of_ofDatum hadmits rest hvalues⟩

theorem Value.entryLeaves_of_ofDatum (hadmits : ∀ kind data, kind ≠ .constant → admits kind data) :
    (entries : List (Datum × Datum)) → {values : List (Datum × Value)} →
      Value.ofDatumEntries entries = .ok values → Value.EntryLeaves admits values
  | [], _, h => by
      obtain rfl := Except.ok.inj h
      trivial
  | (key, item) :: rest, _, h => by
      rw [Value.ofDatumEntries] at h
      split_ifs at h
      · exact absurd h nofun
      obtain ⟨value, hvalue, h⟩ := Result.bind_eq_ok_iff.mp h
      obtain ⟨values, hvalues, h⟩ := Result.bind_eq_ok_iff.mp h
      obtain rfl := Except.ok.inj h
      exact ⟨Value.leaves_of_ofDatum hadmits item hvalue,
        Value.entryLeaves_of_ofDatum hadmits rest hvalues⟩

end

end Leaves

/-- Constants among the leaves are those that a table does not have, and no keyword in any case. -/
def LeafKind.Unlisted (constants : Constants) (kind : LeafKind) (data : Datum) : Prop :=
  kind = .constant →
    ∃ name, data = .text name ∧ constants.get? name = none ∧ isKeyword name.toList = false

/-- A known tag with distinct attribute names. -/
structure Node.Sound (node : Node) : Prop where
  known : node.IsKnown
  distinct : (node.attributes.map (·.1)).Nodup

section Sound

variable {constants : Constants}

theorem sound_of_wordValue {word : String} {value : Value}
    (h : Reader.wordValue constants word = .ok value) :
    value.Tags Node.Sound ∧ value.Leaves (LeafKind.Unlisted constants) := by
  simp only [Reader.wordValue, beq_iff_eq] at h
  split_ifs at h with htrue hfalse hnull
  · obtain rfl := Except.ok.inj h
    exact ⟨trivial, nofun⟩
  · obtain rfl := Except.ok.inj h
    exact ⟨trivial, nofun⟩
  · obtain rfl := Except.ok.inj h
    exact ⟨trivial, nofun⟩
  · split at h
    · rename_i hget
      obtain rfl := Except.ok.inj h
      refine ⟨trivial, fun _ => ⟨word, rfl, hget, ?_⟩⟩
      simp [isKeyword, htrue, hfalse, hnull]
    · exact ⟨Value.tags_of_ofDatum _ h,
        Value.leaves_of_ofDatum (fun _ _ hkind hconstant => absurd hconstant hkind) _ h⟩

theorem IsWord.sound {value : Value} {text : List Char} (h : IsWord constants value text) :
    value.Tags Node.Sound ∧ value.Leaves (LeafKind.Unlisted constants) := by
  cases h with
  | quoted => exact ⟨trivial, nofun⟩
  | numeral _ _ hvalue =>
      simp only [Reader.numeralValue] at hvalue
      split_ifs at hvalue
      · obtain rfl := Except.ok.inj hvalue
        exact ⟨trivial, nofun⟩
      · split at hvalue
        · obtain rfl := Except.ok.inj hvalue
          exact ⟨trivial, nofun⟩
        · cases hvalue
  | identifier _ _ hvalue => exact sound_of_wordValue hvalue

mutual

/-- In what a text says, every nested tag is known and names its attributes once, and the constants
are those that the table does not have. -/
theorem Value.Written.sound : (value : Value) → {text : List Char} → value.Written constants text →
    value.Tags Node.Sound ∧ value.Leaves (LeafKind.Unlisted constants)
  | .leaf _ _, _, h => IsWord.sound h
  | .array items, _, h => by
      obtain hword | ⟨pieces, hitems, -⟩ := h
      · exact IsWord.sound hword
      · exact Value.EachWritten.sound items hitems
  | .mapping entries, _, h => by
      obtain hword | ⟨-, pieces, hentries, -⟩ := h
      · exact IsWord.sound hword
      · exact Value.EntriesWritten.sound entries hentries
  | .tag node, _, h => Node.Written.sound node h.1 h.2

theorem Value.EachWritten.sound : (items : List Value) → {pieces : List (List Char)} →
    Value.EachWritten constants items pieces →
      Value.AllTags Node.Sound items ∧ Value.AllLeaves (LeafKind.Unlisted constants) items
  | [], _, _ => ⟨trivial, trivial⟩
  | item :: rest, _, h => by
      obtain ⟨piece, later, -, hitem, hrest⟩ := h
      obtain ⟨htags, hleaves⟩ := Value.Written.sound item hitem
      obtain ⟨hmoreTags, hmoreLeaves⟩ := Value.EachWritten.sound rest hrest
      exact ⟨⟨htags, hmoreTags⟩, hleaves, hmoreLeaves⟩

theorem Value.EntriesWritten.sound {spells : Datum → List Char → Prop} {marks : List Char} :
    (entries : List (Datum × Value)) → {pieces : List (List Char)} →
      Value.EntriesWritten constants spells marks entries pieces →
        Value.EntryTags Node.Sound entries ∧ Value.EntryLeaves (LeafKind.Unlisted constants) entries
  | [], _, _ => ⟨trivial, trivial⟩
  | (_, item) :: rest, _, h => by
      obtain ⟨text, piece, later, -, hitem, -, hrest⟩ := h
      obtain ⟨htags, hleaves⟩ := Value.Written.sound item hitem
      obtain ⟨hmoreTags, hmoreLeaves⟩ := Value.EntriesWritten.sound rest hrest
      exact ⟨⟨htags, hmoreTags⟩, hleaves, hmoreLeaves⟩

theorem Node.Written.sound : (node : Node) → {text : List Char} → node.IsKnown →
    node.Written constants text → node.Tags Node.Sound ∧ node.Leaves (LeafKind.Unlisted constants)
  | ⟨_, attributes, children, _, _⟩, _, hknown, h => by
      obtain ⟨hdistinct, base, name, -, -, ⟨rfl, rfl, -⟩ |
        ⟨_, parts, nested, _, _, -, hattributes, hchildren, -⟩⟩ := h
      · exact ⟨⟨⟨hknown, hdistinct⟩, trivial, trivial⟩, trivial, trivial⟩
      · obtain ⟨htags, hleaves⟩ := Value.EntriesWritten.sound attributes hattributes
        obtain ⟨hmoreTags, hmoreLeaves⟩ := Node.EachWritten.sound children hchildren
        exact ⟨⟨⟨hknown, hdistinct⟩, htags, hmoreTags⟩, hleaves, hmoreLeaves⟩

theorem Node.EachWritten.sound : (nodes : List Node) → {pieces : List (List Char)} →
    Node.EachWritten constants nodes pieces →
      Node.AllTags Node.Sound nodes ∧ Node.AllLeaves (LeafKind.Unlisted constants) nodes
  | [], _, _ => ⟨trivial, trivial⟩
  | node :: rest, _, h => by
      obtain ⟨piece, later, -, hknown, hnode, hrest⟩ := h
      obtain ⟨htags, hleaves⟩ := Node.Written.sound node hknown hnode
      obtain ⟨hmoreTags, hmoreLeaves⟩ := Node.EachWritten.sound rest hrest
      exact ⟨⟨htags, hmoreTags⟩, hleaves, hmoreLeaves⟩

end

end Sound

end DocCompiler.Annotation
