import Mathlib.Data.List.Basic
import Mathlib.Tactic.SplitIfs
import DocCompiler.Document.Model

/-!
What is asked of a model after it is frozen. Nothing that is to be added gets in. A configuration has
its way all the same: its texts take the place of those in the general information, and the servers
with its address are taken out, before its own server is refused.
-/

namespace DocCompiler

/-- What may be asked of a model: to take in an operation, a server, a tag or a component, or to have
what a configuration says. -/
inductive Amendment
  | operation (part : Part)
  | server (part : Part) (first : Bool)
  | tag (part : Part)
  | component (collection name : Datum) (part : Part)
  | configuration (overrides : Overrides)

/-- What a configuration says that is to be applied. -/
def Amendment.overrides? : Amendment → Option Overrides
  | .configuration overrides => some overrides
  | _ => none

/-- A server has the address that a configuration gives. -/
def Overrides.displaces (overrides : Overrides) (server : Part) : Bool :=
  (given? overrides.baseUrl).any fun url => server.url?.any (·.isText url)

namespace Model

/-- A model after an amendment, and the error when the amendment is refused. -/
def amend (model : Model) : Amendment → Model × Option ModelError
  | .operation part => model.addOperation part
  | .server part first => model.addServer part first
  | .tag part => model.addTag part
  | .component collection name part => model.registerIn collection name part
  | .configuration overrides => model.applyOverrides overrides

/-- A model after amendments, one after the other, whether they are refused or not. -/
def amendAll (model : Model) (amendments : List Amendment) : Model :=
  amendments.foldl (fun model amendment => (model.amend amendment).1) model

/-- A model with the general information that a configuration leaves and without the servers that it
displaces. -/
def displaced (model : Model) (overrides : Overrides) : Model :=
  { model with
    info := (model.overrideInfo overrides).info
    servers := model.servers.filter (!overrides.displaces ·) }

theorem overrideInfo_eq (model : Model) (overrides : Overrides) :
    model.overrideInfo overrides = { model with info := (model.overrideInfo overrides).info } := by
  unfold overrideInfo
  split <;> rfl

/-- The general information that configurations leave depends on that before them alone. -/
theorem info_overrideInfo {model other : Model} (h : model.info = other.info) (overrides : Overrides) :
    (model.overrideInfo overrides).info = (other.overrideInfo overrides).info := by
  unfold overrideInfo
  rw [h]
  split
  · rfl
  · exact h

theorem info_foldl_overrideInfo {model other : Model} (h : model.info = other.info)
    (configurations : List Overrides) :
    (configurations.foldl overrideInfo model).info = (configurations.foldl overrideInfo other).info := by
  induction configurations generalizing model other with
  | nil => exact h
  | cons overrides rest ih => exact ih (info_overrideInfo h overrides)

/-- Configurations one after the other displace what any of them does. -/
theorem foldl_displaced (model : Model) (configurations : List Overrides) :
    configurations.foldl displaced model =
      { model with
        info := (configurations.foldl overrideInfo model).info
        servers := model.servers.filter fun server => !configurations.any (·.displaces server) } := by
  induction configurations generalizing model with
  | nil => simp
  | cons overrides rest ih =>
      have hinfo : (model.displaced overrides).info = (model.overrideInfo overrides).info := rfl
      rw [List.foldl_cons, ih, info_foldl_overrideInfo hinfo]
      simp only [displaced, List.filter_filter, List.any_cons, Bool.not_or, Bool.and_comm,
        List.foldl_cons]

section Frozen

variable {model : Model} (hfrozen : model.frozen = true)

include hfrozen

theorem change_of_frozen (changed : Except ModelError Model) :
    model.change changed = (model, some .frozen) := by
  unfold Model.change
  rw [if_pos hfrozen]

/-- A frozen model takes nothing in. -/
theorem amend_of_frozen {amendment : Amendment} (h : amendment.overrides? = none) :
    model.amend amendment = (model, some .frozen) := by
  cases amendment with
  | operation part =>
      simp only [amend, addOperation]
      split
      · exact change_of_frozen hfrozen _
      · split_ifs
        · exact change_of_frozen hfrozen _
        · rfl
  | server part first =>
      rw [amend, addServer]
      exact change_of_frozen hfrozen _
  | tag part =>
      rw [amend, addTag]
      exact change_of_frozen hfrozen _
  | component collection name part =>
      rw [amend, registerIn]
      split
      · exact change_of_frozen hfrozen _
      · split
        · exact change_of_frozen hfrozen _
        · exact change_of_frozen hfrozen _
  | configuration overrides => cases h

/-- A configuration takes servers out of a frozen model and puts none in. -/
theorem applyOverrides_of_frozen (hservers : ∀ server ∈ model.servers, server.url?.isSome = true)
    (overrides : Overrides) : (model.applyOverrides overrides).1 = model.displaced overrides := by
  have haddressed : model.servers.find? (fun server => server.url?.isNone) = none := by
    rw [List.find?_eq_none]
    intro server hserver
    rw [Bool.not_eq_true, Option.isNone_eq_false_iff]
    exact hservers server hserver
  unfold applyOverrides displaced Overrides.displaces
  rw [overrideInfo_eq]
  cases given? overrides.baseUrl with
  | none => simp
  | some url =>
      simp only [haddressed, Option.any_some, addServer]
      refine congrArg Prod.fst (change_of_frozen ?_ _)
      exact hfrozen

/-- What one amendment does to a frozen model. -/
theorem amend_frozen (hservers : ∀ server ∈ model.servers, server.url?.isSome = true)
    (amendment : Amendment) :
    (model.amend amendment).1 = amendment.overrides?.elim model model.displaced := by
  cases hoverrides : amendment.overrides? with
  | none => rw [amend_of_frozen hfrozen hoverrides]; rfl
  | some overrides =>
      cases amendment with
      | configuration given =>
          obtain rfl := Option.some.inj hoverrides
          exact applyOverrides_of_frozen hfrozen hservers given
      | _ => cases hoverrides

theorem amendAll_eq_foldl (hservers : ∀ server ∈ model.servers, server.url?.isSome = true)
    (amendments : List Amendment) :
    model.amendAll amendments = (amendments.filterMap Amendment.overrides?).foldl displaced model := by
  induction amendments generalizing model with
  | nil => rfl
  | cons amendment rest ih =>
      change ((model.amend amendment).1).amendAll rest = _
      rw [amend_frozen hfrozen hservers]
      cases hoverrides : amendment.overrides? with
      | none => exact (ih hfrozen hservers).trans (by rw [List.filterMap_cons_none hoverrides])
      | some overrides =>
          rw [List.filterMap_cons_some hoverrides, List.foldl_cons]
          exact ih hfrozen fun server hserver => hservers server (List.mem_of_mem_filter hserver)

/-- Amendments leave a frozen model as it is, but for what their configurations say: these have their
texts in the general information, and the servers with their addresses are gone. Whatever is to be
added is refused. -/
theorem amendAll_of_frozen (hservers : ∀ server ∈ model.servers, server.url?.isSome = true)
    (amendments : List Amendment) :
    model.amendAll amendments =
        { model with
          info := ((amendments.filterMap Amendment.overrides?).foldl overrideInfo model).info
          servers := model.servers.filter fun server =>
            !(amendments.filterMap Amendment.overrides?).any (·.displaces server) } ∧
      ((∀ amendment ∈ amendments, amendment.overrides? = none) → model.amendAll amendments = model) ∧
      ∀ amendment, amendment.overrides? = none →
        (model.amendAll amendments).amend amendment = (model.amendAll amendments, some .frozen) := by
  have hfinal := amendAll_eq_foldl hfrozen hservers amendments
  refine ⟨hfinal.trans (foldl_displaced model _), fun hnone => ?_, fun amendment h => ?_⟩
  · rw [hfinal, List.filterMap_eq_nil_iff.mpr hnone, List.foldl_nil]
  · refine amend_of_frozen ?_ h
    rw [hfinal, foldl_displaced]
    exact hfrozen

end Frozen

/-- A frozen model with two servers, of which a configuration takes one out. -/
theorem amendAll_of_frozen_server :
    let model : Model :=
      { servers := [.server { url := .text "/v1" }, .server { url := .text "/v2" }], frozen := true }
    let amendments : List Amendment :=
      [.tag (.tag { name := .text "late" }), .configuration { title := some "T", baseUrl := some "/v1" }]
    (model.frozen = true ∧ ∀ server ∈ model.servers, server.url?.isSome = true) ∧
      model.amendAll amendments =
        { model with
          info := ((amendments.filterMap Amendment.overrides?).foldl overrideInfo model).info
          servers := model.servers.filter fun server =>
            !(amendments.filterMap Amendment.overrides?).any (·.displaces server) } ∧
      ((∀ amendment ∈ amendments, amendment.overrides? = none) → model.amendAll amendments = model) ∧
      ∀ amendment, amendment.overrides? = none →
        (model.amendAll amendments).amend amendment = (model.amendAll amendments, some .frozen) := by
  intro model amendments
  have hservers : ∀ server ∈ model.servers, server.url?.isSome = true := by
    simp [model, Part.url?]
  exact ⟨⟨rfl, hservers⟩, amendAll_of_frozen rfl hservers amendments⟩

/-- Not every frozen model stays as it is: a configuration takes the server with its address out of it
and changes its title, though its own server is refused. -/
theorem not_kept_of_frozen :
    ¬ ∀ additions amendments : List Amendment,
      let model := (({} : Model).amendAll additions).freeze
      let later := model.amendAll amendments
      later.info = model.info ∧ later.servers = model.servers ∧ later.tags = model.tags ∧
        later.paths = model.paths ∧ later.components = model.components := by
  intro h
  obtain ⟨-, hservers, -⟩ := h [.server (.server { url := .text "/v1" }) false]
    [.configuration { title := some "T", baseUrl := some "/v1" }]
  exact absurd (congrArg List.length hservers) (by decide)

end Model

end DocCompiler
