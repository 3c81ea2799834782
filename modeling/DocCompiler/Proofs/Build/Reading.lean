import DocCompiler.Build.Fragment
import DocCompiler.Proofs.Build.Step

/-!
The fragments of a document are read without a change to what is built so far.
-/

namespace DocCompiler.Build

open Annotation

theorem reads_reference (view : View) (raw : Datum) (expected : Collection) :
    Reads (reference view raw expected) := by
  unfold reference
  cases raw with
  | unresolved marker => exact Reads.pure _
  | text value =>
      simp only
      split
      · exact Reads.refuse _ _
      · exact Reads.pure _
  | _ => exact Reads.giveUp _

theorem reads_orReference {view : View} {expected : Collection} {inline : Step Part}
    (h : Reads inline) : Reads (orReference view expected inline) := by
  refine (Reads.look _).bind fun raw => Reads.ite h ?_
  exact (Reads.look _).bind fun _ => (reads_reference view raw expected).map

theorem reads_propertyName (unit : String) (node : Node) : Reads (propertyName unit node) := by
  unfold propertyName
  split
  · exact Reads.pure _
  · exact Reads.throw _

theorem reads_properties {unit : String} {view : View} {schema : Node → Step Part}
    (h : ∀ node, Reads (schema node)) (nodes : List Node) (done : Registry) :
    Reads (properties unit view schema nodes done) := by
  induction nodes generalizing done with
  | nil => exact Reads.pure _
  | cons child rest ih =>
      refine (reads_propertyName unit child).bind fun name => (Reads.look _).bind fun _ => ?_
      exact Reads.ite (Reads.refuse _ _) ((h child).bind fun property => ih _)

theorem reads_requireArray (view : View) (enum : Datum) : Reads (requireArray view enum) := by
  unfold requireArray
  split
  · exact Reads.pure _
  · exact Reads.pure _
  · exact Reads.refuse _ _

theorem reads_facets (view : View) (hasProperties hasItems : Bool) :
    Reads (facets view hasProperties hasItems) := by
  unfold facets
  repeat' first
    | exact Reads.look _
    | exact Reads.pure _
    | exact reads_requireArray _ _
    | refine Reads.bind ?_ fun _ => ?_

theorem reads_schemaBody {unit : String} {nested : Node → Step Part} (h : ∀ node, Reads (nested node))
    (view : View) : Reads (schemaBody unit nested view) := by
  unfold schemaBody
  refine (Reads.look _).bind fun children => (reads_properties h children []).bind fun properties => ?_
  refine (Reads.look _).bind fun items => (Reads.look _).bind fun _ => ?_
  have hrest : ∀ value : PUnit, Reads (do
      let items ← items.head?.mapM nested
      let facets ← facets view (!properties.isEmpty) items.isSome
      return Part.schema facets properties items) := fun _ =>
    (Reads.optionMapM fun item _ => h item).bind fun items =>
      (reads_facets view _ _).bind fun facets => Reads.pure _
  exact Reads.ite ((Reads.refuse _ _).bind hrest) (hrest ())

theorem reads_schemaOf (unit : String) (depth : Nat) (view : View) :
    Reads (schemaOf unit depth view) := by
  induction depth generalizing view with
  | zero => exact reads_orReference (reads_schemaBody (fun _ => Reads.pure _) view)
  | succ depth ih =>
      exact reads_orReference (reads_schemaBody (fun node => (Reads.enter unit node).bind ih) view)

theorem reads_viewedSchema (unit : String) (view : View) : Reads (viewedSchema unit view) :=
  reads_schemaOf unit _ view

theorem reads_schema (unit : String) (node : Node) : Reads (schema unit node) :=
  (Reads.enter unit node).bind fun view => reads_viewedSchema unit view

theorem reads_mediaType (unit : String) (node : Node) : Reads (mediaType unit node) := by
  unfold mediaType
  split
  · exact (reads_schema unit node).bind fun _ => Reads.pure _
  · repeat' first
      | exact Reads.look _
      | exact Reads.pure _
      | exact Reads.refuse _ _
      | exact Reads.enter _ _
      | exact Reads.optionMapM fun item _ => reads_schema unit item
      | refine Reads.bind ?_ fun _ => ?_
      | split

theorem reads_contents (unit : String) (view : View) (nodes : List Node) (done : Registry) :
    Reads (contents unit view nodes done) := by
  induction nodes generalizing done with
  | nil => exact Reads.pure _
  | cons child rest ih =>
      refine (reads_mediaType unit child).bind fun (type, media) => ?_
      exact Reads.ite (Reads.refuse _ _) (ih _)

theorem reads_content (unit : String) (view : View) : Reads (content unit view) :=
  (Reads.look _).bind fun children => (reads_contents unit view children []).bind fun _ =>
    (Reads.look _).bind fun _ => Reads.pure _

theorem reads_parameterLocation (view : View) : Reads (parameterLocation view) := by
  unfold parameterLocation
  split
  · exact Reads.pure _
  · exact (Reads.look _).bind fun _ => Reads.pure _

theorem reads_parameterBody (unit : String) (view : View) : Reads (parameterBody unit view) := by
  unfold parameterBody
  repeat' first
    | exact Reads.look _
    | exact reads_parameterLocation _
    | exact Reads.pure _
    | exact Reads.refuse _ _
    | exact Reads.optionMapM fun item _ => reads_schema unit item
    | refine Reads.bind ?_ fun _ => ?_
    | split

theorem reads_parameter (unit : String) (view : View) : Reads (parameter unit view) :=
  reads_orReference (reads_parameterBody unit view)

theorem reads_requestBody (unit : String) (view : View) : Reads (requestBody unit view) :=
  reads_orReference ((reads_content unit view).bind fun _ => (Reads.look _).bind fun _ =>
    (Reads.look _).bind fun _ => Reads.pure _)

theorem reads_response (unit : String) (view : View) : Reads (response unit view) :=
  reads_orReference ((reads_content unit view).bind fun _ => (Reads.look _).bind fun _ =>
    Reads.pure _)

end DocCompiler.Build
