import DocCompiler.Document.Output
import DocCompiler.Proofs.Json.Grammar
import Mathlib.Data.List.Infix
import DocCompiler.Compile.Unit
import DocCompiler.Proofs.Annotation.Supply
import DocCompiler.Proofs.Build.Numbers
import DocCompiler.Proofs.Document.Follow

/-!
The JSON text of a document: a text of the grammar that ends with a line feed and from which the document is
read back. The numbers in the document of an accepted model are those of the doc comments and of the constants.
When JSON has a form for all of these, the JSON text of the document is in the grammar; the rules do not see to
it that it has.
-/

namespace DocCompiler

section Rendering

/-- A document that JSON has a form for: mappings with different texts as keys, lists, texts, truth values,
absent values, and numbers that have a value and are not too long. -/
structure Datum.IsTree (value : Datum) : Prop where
  legible : value.Legible
  numbers : value.Numbers Number.Standard

namespace Attached

theorem renderAs_json (attached : Attached) : attached.renderAs "json" = attached.render .json :=
  rfl

/-- The JSON text of a document is the text of its value with a line feed behind it. -/
theorem render_json_eq_ok_iff {attached : Attached} {text : String} :
    attached.render .json = .ok text ↔
      ∃ body, Json.write { indent := some 2 } attached.document = .ok body ∧ text = body ++ "\n" := by
  rw [render]
  cases hbody : Json.write { indent := some 2 } attached.document with
  | ok body => simp [eq_comm]
  | error error => simp

theorem isBlank_lineFeed : Json.Grammar.IsBlank "\n".toList := by
  simp [Json.Grammar.IsBlank, Json.isSpace]

/-- The JSON text of a document whose numbers have a form is a text of the grammar. -/
theorem isElement_render {attached : Attached} (h : attached.document.Numbers Number.Standard) {text : String}
    (htext : attached.render .json = .ok text) : Json.Grammar.IsElement text.toList := by
  obtain ⟨body, hbody, rfl⟩ := render_json_eq_ok_iff.mp htext
  rw [String.toList_append]
  exact (Json.Grammar.isElement_write h hbody).append_blank isBlank_lineFeed

/-- A document has a JSON text. The text ends with a line feed, it is in the grammar, and the document is read
back from it, with its entries in their order, wherever its levels are read at all. -/
theorem renderAs_json_faithful (attached : Attached) (h : attached.document.IsTree) :
    ∃ text, attached.renderAs "json" = .ok text ∧ text.toList.getLast? = some '\n' ∧
      Json.Grammar.IsElement text.toList ∧
        ∀ limit, attached.document.height ≤ limit →
          Json.readWithin limit text.toList = .ok attached.document := by
  obtain ⟨body, hbody, hread⟩ := Json.readWithin_write_append h.legible { indent := some 2 }
  have htext : attached.render .json = .ok (body ++ "\n") := render_json_eq_ok_iff.mpr ⟨body, hbody, rfl⟩
  have hlist : (body ++ "\n").toList = body.toList ++ ['\n'] := String.toList_append
  refine ⟨body ++ "\n", htext, ?_, isElement_render h.numbers htext, fun limit hlimit => ?_⟩
  · rw [hlist, List.getLast?_concat]
  · rw [hlist]
    exact hread limit hlimit ['\n'] isBlank_lineFeed

/-- A document with nested and with empty collections, with texts of all kinds of characters, and with a whole
number and a fraction. -/
def assorted : Attached :=
  { document := .record [
      ("plain", .list [.null, .bool true, .int (-12), .number (.float (.finite false 7205759403792794 (-56)))]),
      ("", .record [("list", .list []), ("map", .record [])]),
      ("\"quoted\\\n\x01", .text "é \u2028 😀 \x7f\t")] }

theorem isTree_assorted : assorted.document.IsTree where
  legible := by
    simp [assorted, Datum.record, Datum.Legible, Datum.EntriesLegible, Datum.AllLegible, Datum.LegibleText,
      Number.isWritable, Number.Canonical, Binary64.Canonical, Binary64.minExponent, Binary64.maxExponent, twoTo]
  numbers := by
    simp [assorted, Datum.record, Datum.Numbers, Datum.AllNumbers, Datum.EntryNumbers, Number.standard_int,
      Number.standard_finite, Binary64.Canonical, Binary64.minExponent, Binary64.maxExponent]

theorem renderAs_json_faithful_assorted :
    assorted.document.IsTree ∧ ∃ text, assorted.renderAs "json" = .ok text ∧
      text.toList.getLast? = some '\n' ∧ Json.Grammar.IsElement text.toList ∧
        ∀ limit, assorted.document.height ≤ limit →
          Json.readWithin limit text.toList = .ok assorted.document :=
  ⟨isTree_assorted, assorted.renderAs_json_faithful isTree_assorted⟩

end Attached

end Rendering

open Annotation

variable {admits : Number → Prop}

/-- The numbers at a path of a value are among its numbers. -/
theorem Datum.numbers_at? {value found : Datum} {path : DatumPath} (h : value.Numbers admits)
    (hfound : value.at? path = some found) : found.Numbers admits := by
  have hall : ∀ data ∈ value.at? path, data.Numbers admits := by
    refine List.foldlRecOn path _ (motive := fun here : Option Datum => ∀ data ∈ here, data.Numbers admits) ?_ ?_
    · exact fun _ hdata => Option.mem_some.mp hdata ▸ h
    · intro here hhere key _ data hdata
      split at hdata
      · obtain ⟨name, -, hmem⟩ := Datum.mem_of_lookup_eq_some hdata
        exact (Datum.numbers_map_iff.mp (hhere _ rfl) _ hmem).2
      · cases hdata
  exact hall found hfound

section Accepting

variable {units : List AnnotatedUnit} {overrides : Overrides} {model : Model}

/-- Building, resolving and checking bring no number into a model that its annotations do not have. -/
theorem Accepted.numbers (h : Accepted units overrides model)
    (hleaves : ∀ unit ∈ units, unit.Leaves fun _ data => data.Numbers admits) : model.Numbers admits := by
  obtain ⟨context, resolved, breaches, hbuild, hresolve, -, -⟩ := h
  have hsound : context.Sound (Terms.numbers admits) [] :=
    Build.sound_of_build (fun _ _ _ => trivial) hleaves hbuild
  have hnumbers := (Build.numbers_of_build hleaves hbuild).model
  exact (hnumbers.applyOverrides overrides).freeze.resolve (hsound.fits.applyOverrides overrides).freeze hresolve

/-- A unit whose blocks are read from doc comments with a table of constants. All numbers in the comments are
admitted, and their declarations have texts as names. -/
def Annotation.AnnotatedUnit.ReadFrom (admits : Number → Prop) (constants : Constants) (unit : AnnotatedUnit) : Prop :=
  ∀ block ∈ unit.blocks, ∃ given diagnostics,
    Compile.annotateBlock constants given = .ok (block, diagnostics) ∧
    Block.Numerals admits given ∧ (∃ name, given.symbol.name = .text name) ∧
      ∃ name, given.symbol.qualifiedName = .text name

theorem Annotation.AnnotatedUnit.ReadFrom.leaves {constants : Constants} {unit : AnnotatedUnit}
    (h : unit.ReadFrom admits constants) (hconstants : ∀ entry ∈ constants, entry.2.Numbers admits) :
    unit.Leaves fun _ data => data.Numbers admits := by
  intro block hblock
  obtain ⟨given, diagnostics, hread, hnumerals, ⟨name, hname⟩, qualified, hqualified⟩ := h block hblock
  unfold Compile.annotateBlock at hread
  split at hread
  · rename_i nodes errors hparse
    obtain ⟨rfl, -⟩ := Prod.mk.inj (Except.ok.inj hread)
    exact
      { name := by rw [hname]; trivial
        qualifiedName := by rw [hqualified]; trivial
        nodes := numbers_of_parse hconstants hnumerals hparse }
  · cases hread

/-- The document of an accepted model holds no infinite or undefined number, and its JSON text is in the
grammar, when JSON has a form for the numerals in the doc comments and for the numbers in the constants. -/
theorem Accepted.numbers_standard (h : Accepted units overrides model) {constants : Constants}
    (hunits : ∀ unit ∈ units, unit.ReadFrom Number.Standard constants)
    (hconstants : ∀ entry ∈ constants, entry.2.Numbers Number.Standard) (version : String) :
    ∃ attached, model.emit version false = .ok attached ∧ attached.document.Numbers Number.Standard ∧
      ∀ text, attached.renderAs "json" = .ok text → Json.Grammar.IsElement text.toList := by
  obtain ⟨document, hdocument⟩ := h.closed_any.fits.layout version
  have hnumbers := Layout.numbers_document Number.standard_int
    (h.numbers fun unit hunit => (hunits unit hunit).leaves hconstants) hdocument
  refine ⟨{ document }, ?_, hnumbers, fun text htext => Attached.isElement_render hnumbers htext⟩
  simp only [Model.emit, hdocument]
  rfl

end Accepting

namespace Limits

/-- A doc comment with general information and with a schema that has a numeral and a constant as its limits. -/
def block (maximum : String) : Block where
  source := "a.php"
  symbol := .ofFile "a.php"
  startLine := 1
  startColumn := 1
  endLine := 2
  text := "@Info(title=\"T\", version=\"1\")\n@Schema(schema=\"S\", type=\"number\", minimum=LEAST, maximum="
    ++ maximum ++ ")"

/-- The constant in the doc comment. -/
def constants : Constants :=
  [("LEAST", .int (-1))]

/-- A source with the doc comment. -/
def units (maximum : String) : List AnnotatedUnit :=
  match Compile.annotateBlock constants (block maximum) with
  | .ok (block, _) => [{ identity := "a.php", fingerprint := "", blocks := [block] }]
  | .error _ => []

/-- The model of the source. -/
def model (maximum : String) : Model :=
  (accept? (units maximum) {}).getD {}

theorem accepted {maximum : String} (h : (accept? (units maximum) {}).isSome = true) :
    Accepted (units maximum) {} (model maximum) :=
  accepted_getD {} h

theorem readFrom {maximum : String} (h : Block.Numerals admits (block maximum)) :
    ∀ unit ∈ units maximum, unit.ReadFrom admits constants := by
  intro unit hunit
  unfold units at hunit
  split at hunit
  · rename_i found diagnostics hread
    obtain rfl := List.mem_singleton.mp hunit
    intro given hgiven
    obtain rfl := List.mem_singleton.mp hgiven
    exact ⟨_, _, hread, h, ⟨_, rfl⟩, _, rfl⟩
  · cases hunit

theorem constants_standard : ∀ entry ∈ constants, entry.2.Numbers Number.Standard :=
  List.forall_mem_singleton.mpr (Number.standard_int _)

/-- Whether what a numeral is read as is no number that JSON lacks. -/
def isStandard : Except Stop Value → Bool
  | .ok (.number number) => decide number.Standard
  | _ => true

/-- Whether a number that is not finite stands in a model as the maximum of its schema. -/
def isOverflown (model : Model) : Bool :=
  match Layout.document model "3.0.3" with
  | .ok document =>
      match document.at? [.text "components", .text "schemas", .text "S", .text "maximum"] with
      | some (.number number) => decide (¬ number.IsFinite)
      | _ => false
  | .error _ => false

/-- The numerals in the doc comment are read off at every place of it. -/
theorem numerals_standard : Block.Numerals Number.Standard (block "9.5") := by
  have hall : ∀ rest ∈ (block "9.5").text.toList.tails,
      isStandard (Reader.numeralValue (numeral rest)) = true := by
    decide +kernel
  intro rest hrest number hnumber
  have hdecided := hall rest ((List.mem_tails _ _).mpr hrest)
  rw [hnumber] at hdecided
  exact of_decide_eq_true hdecided

end Limits

theorem Accepted.numbers_standard_limits :
    Accepted (Limits.units "9.5") {} (Limits.model "9.5") ∧
      (∀ unit ∈ Limits.units "9.5", unit.ReadFrom Number.Standard Limits.constants) ∧
      (∀ entry ∈ Limits.constants, entry.2.Numbers Number.Standard) ∧
      ∃ attached, (Limits.model "9.5").emit "3.0.3" false = .ok attached ∧
        attached.document.Numbers Number.Standard ∧
          ∀ text, attached.renderAs "json" = .ok text → Json.Grammar.IsElement text.toList :=
  have haccepted := Limits.accepted (by decide +kernel)
  have hunits := Limits.readFrom Limits.numerals_standard
  ⟨haccepted, hunits, Limits.constants_standard,
    haccepted.numbers_standard hunits Limits.constants_standard "3.0.3"⟩

/-- No rule keeps a numeral that is too large out of a document. -/
theorem Accepted.not_finite_of_overflow :
    ¬ ∀ (units : List AnnotatedUnit) (overrides : Overrides) (model : Model) (constants : Constants),
      (∀ unit ∈ units, unit.ReadFrom (fun _ => True) constants) →
        (∀ entry ∈ constants, entry.2.Numbers Number.IsFinite) → Accepted units overrides model →
          ∀ document, Layout.document model "3.0.3" = .ok document → document.Numbers Number.IsFinite := by
  intro hall
  have hfinite := hall (Limits.units "1e999") {} (Limits.model "1e999") Limits.constants
    (Limits.readFrom fun _ _ _ _ => trivial) (List.forall_mem_singleton.mpr trivial)
    (Limits.accepted (by decide +kernel))
  have hinfinite : Limits.isOverflown (Limits.model "1e999") = true := by
    decide +kernel
  rw [Limits.isOverflown] at hinfinite
  split at hinfinite
  · rename_i document hdocument
    split at hinfinite
    · rename_i number hnumber
      have hmember := Datum.numbers_at? (hfinite document hdocument) hnumber
      exact of_decide_eq_true hinfinite hmember
    · cases hinfinite
  · cases hinfinite

end DocCompiler
