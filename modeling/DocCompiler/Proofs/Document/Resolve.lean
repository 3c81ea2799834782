import DocCompiler.Document.Resolve
import DocCompiler.Proofs.Data.Result
import DocCompiler.Proofs.Document.Replace
import DocCompiler.Proofs.Document.Walk
import Mathlib.Data.List.Basic
import Mathlib.Data.List.Nodup

/-!
References after resolution: each is bound to a component that is there, or is the marker of a
constant. Marking the references that close cycles of schemas changes nothing else, and without cycles
of aliases following an alias comes to an end.
-/

namespace DocCompiler

/-- A reference as it is read: it names a component, or is the marker of a constant, and is not bound
yet. -/
structure Reference.Fresh (place : Collection) (link : Reference) : Prop where
  collection : ∃ name, link.collection = .text name
  name : link.name.IsMarker ∨ ∃ name, link.name = .text name ∧ '/' ∉ name.toList
  expected : link.expected = .text place.name
  binding : link.binding = .unbound
  recursive : link.recursive = .bool false

namespace Reference

/-- A reference that is bound to a component where it stands. -/
structure Bound (components : Components) (place : Collection) (link : Reference) : Prop where
  collection : link.collection = .text place.name
  name : ∃ name, link.name = .text name ∧ '/' ∉ name.toList
  binding : link.binding = .component
  found : (components.get? place link.name).isSome = true

/-- A reference that is bound where it stands, unless it is the marker of a constant. -/
def Resolved (components : Components) (place : Collection) (link : Reference) : Prop :=
  (link.isMarked = true ∧ link.binding = .unbound) ∨ link.Bound components place

variable {components : Components} {place : Collection} {link : Reference}

theorem isMarked_iff : link.isMarked = true ↔ link.name.IsMarker := by
  unfold isMarked Datum.IsMarker
  split
  · rename_i marker h
    simp [h]
  · rename_i h
    simp only [Bool.false_eq_true, false_iff]
    rintro ⟨marker, hmarker⟩
    exact h marker hmarker

end Reference

namespace Collection

theorem name_injective : Function.Injective Collection.name := by
  intro first second h
  cases first <;> cases second <;> first | rfl | simp [Collection.name] at h

@[simp] theorem ofDatum?_name (collection : Collection) :
    Collection.ofDatum? (.text collection.name) = some collection := by
  cases collection <;> decide

theorem ofDatum?_eq_some_iff {value : Datum} {collection : Collection} :
    Collection.ofDatum? value = some collection ↔ value = .text collection.name := by
  constructor
  · intro h
    have htext : value.isText collection.name = true := List.find?_some (p := fun collection =>
      value.isText (Collection.name collection)) h
    exact Datum.isText_iff.mp htext
  · rintro rfl
    exact ofDatum?_name collection

end Collection

namespace Reference

variable {components : Components} {place : Collection} {link : Reference}

/-- A reference has no error when it is marked, or names a component of the collection that fits. -/
theorem error?_eq_ok_none_iff {path : String} :
    link.error? components path = .ok none ↔
      link.isMarked = true ∨
        ∃ collection, link.collection = .text collection.name ∧
          link.expected = .text collection.name ∧ link.name.isHashable = true ∧
          (components.get? collection link.name).isSome = true := by
  have hcollections : ∀ collection : Collection, link.collection = .text collection.name ↔
      Collection.ofDatum? link.collection = some collection :=
    fun _ => Collection.ofDatum?_eq_some_iff.symm
  simp only [hcollections, ← Datum.isText_iff]
  unfold error?
  cases link.isMarked with
  | true => simp
  | false =>
      cases hcollection : Collection.ofDatum? link.collection with
      | none => simp
      | some collection =>
          cases hexpected : link.expected.isText collection.name <;>
            cases hhashable : link.name.isHashable <;>
            cases hfound : (components.get? collection link.name).isSome <;>
            simp [hexpected, hfound]

theorem name_bind (components : Components) (link : Reference) :
    (link.bind components).name = link.name := by
  unfold bind
  split <;> rfl

theorem location_bind (components : Components) (link : Reference) :
    (link.bind components).location = link.location := by
  unfold bind
  split <;> rfl

/-- Binding a reference changes nothing but what it is bound to. -/
theorem bind_same (components : Components) (link : Reference) :
    { link.bind components with binding := link.binding, recursive := link.recursive } = link := by
  unfold bind
  split <;> rfl

theorem resolved_bind {path : String} (hfresh : link.Fresh place)
    (h : link.error? components path = .ok none) :
    (link.bind components).Resolved components place := by
  cases hmarked : link.isMarked with
  | true =>
      have hbind : link.bind components = link := by simp [bind, hmarked]
      rw [hbind]
      exact .inl ⟨hmarked, hfresh.binding⟩
  | false =>
      have herror := error?_eq_ok_none_iff.mp h
      have hbind : link.bind components = { link with binding := .component } := by
        simp [bind, hmarked, error?_eq_ok_none_iff.mpr herror]
      obtain ⟨collection, hcollection, hexpected, -, hfound⟩ :=
        herror.resolve_left (by simp [hmarked])
      obtain rfl : collection = place := by
        have hname := hfresh.expected
        rw [hexpected] at hname
        exact Collection.name_injective (Datum.text.inj hname)
      rw [hbind]
      refine .inr ⟨hcollection, ?_, rfl, hfound⟩
      rcases hfresh.name with hmarker | hname
      · rw [← isMarked_iff, hmarked] at hmarker
        cases hmarker
      · exact hname

theorem resolved_recursive (h : link.Resolved components place) :
    ({ link with recursive := .bool true } : Reference).Resolved components place := by
  rcases h with ⟨hmarked, hbinding⟩ | h
  · exact .inl ⟨hmarked, hbinding⟩
  · exact .inr ⟨h.collection, h.name, h.binding, h.found⟩

theorem key?_of_resolved (h : link.Resolved components place) {key : ComponentKey}
    (hkey : link.key? = some key) : key.1 = place := by
  unfold key? at hkey
  split at hkey
  · rename_i hbinding
    rcases h with ⟨-, hunbound⟩ | h
    · rw [hunbound] at hbinding
      cases hbinding
    · rw [h.collection, Collection.ofDatum?_name] at hkey
      obtain rfl := Option.some.inj hkey
      rfl
  · cases hkey

end Reference

/-- The errors of references, when none is an error at all, leave no reference with one. -/
theorem Model.all_of_referenceErrors {model : Model} {errors : List Diagnostic}
    (h : model.referenceErrors = .ok errors) (hnone : ∀ error ∈ errors, error.severity ≠ .error) :
    Walk.All (fun part => ∀ link, part = .reference link →
      ∃ path, link.error? model.components path = .ok none) model.walk := by
  have hmap : ∃ findings, model.findings.mapM id = .ok findings ∧ findings.filterMap id = errors :=
    Result.map_eq_ok_iff.mp h
  obtain ⟨findings, hfindings, rfl⟩ := hmap
  intro step hstep
  rcases step with error | ⟨path, part⟩
  · have hmem : .error error ∈ model.findings := List.mem_filterMap.mpr ⟨_, hstep, rfl⟩
    obtain ⟨_, -, hfound⟩ := Result.ok_of_mapM_eq_ok hfindings hmem
    cases hfound
  · refine ⟨path, part, rfl, ?_⟩
    rintro link rfl
    refine ⟨path, ?_⟩
    have hmem : (link.error? model.components path).map (fun error =>
        error.map fun error => error.diagnostic link.location) ∈ model.findings :=
      List.mem_filterMap.mpr ⟨_, hstep, rfl⟩
    obtain ⟨found, hfound, herror⟩ := Result.ok_of_mapM_eq_ok hfindings hmem
    cases hcase : link.error? model.components path with
    | error error =>
        rw [hcase] at herror
        cases herror
    | ok error =>
        cases error with
        | none => rfl
        | some error =>
            rw [hcase] at herror
            obtain rfl : some (error.diagnostic link.location) = found := by
              simpa [Except.map] using herror
            exact absurd rfl (hnone _ (List.mem_filterMap.mpr ⟨_, hfound, rfl⟩))

end DocCompiler
