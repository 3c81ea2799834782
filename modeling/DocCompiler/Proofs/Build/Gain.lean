import DocCompiler.Proofs.Build.Fault
import DocCompiler.Proofs.Document.Count

/-!
What an annotation adds to the document that comes to its end: one part, under a claim that was free.
-/

namespace DocCompiler.Build

open Annotation

/-- What is declared by an annotation with a tag, as far as it is counted. -/
def kindOf? (tag : String) : Option EntryKind :=
  match tag with
  | "Server" => some .server
  | "Tag" => some .tag
  | "Schema" => some (.component .schemas)
  | "RequestBody" => some (.component .requestBodies)
  | "Response" => some (.component .responses)
  | "SecurityScheme" => some .securityScheme
  | _ =>
      if methodTags.contains tag then some .operation
      else if parameterTags.contains tag then some (.component .parameters)
      else none

/-- What an annotation declares. -/
def Placed.kind? (placed : Placed) : Option EntryKind :=
  placed.node.tag.text?.bind kindOf?

/-- The attribute with the name of a component. -/
def nameAttribute : Collection → String
  | .schemas => "schema"
  | .parameters => "parameter"
  | .requestBodies => "request"
  | .responses => "response"

/-- What an annotation lays claim to: the address of a server, the name of a tag, the path and method of
an operation or the name of a component. A schema without a name has that of the type it describes. -/
def Placed.claim? (placed : Placed) : Option Claim :=
  let view := View.of placed.unit placed.node
  let text (attr : String) : Option Datum := (view.text attr).toOption
  match placed.kind? with
  | some .operation =>
      (text "path").map fun path =>
        .operation (path.text?.elim path fun route => .text (Route.normalize route)).display
          (Text.lower view.tag)
  | some .server => (text "url").map fun url => .server url.display
  | some .tag => (text "name").map fun name => .tag name.display
  | some (.component collection) =>
      (text (nameAttribute collection)).map fun name =>
        .component collection.name
          (if collection = .schemas ∧ name.isNull ∧ placed.symbol.kind = .type then placed.symbol.name
          else name)
  | some .securityScheme =>
      (text "securityScheme").map fun name => .component "securitySchemes" name
  | none => none

/-- A context in which one thing more is declared, of a kind and under a claim that was free. -/
structure Context.Declares (before : Context) (kind : EntryKind) (key : Claim) (after : Context) :
    Prop where
  unclaimed : ∀ entry ∈ before.origins, entry.1.same key = false
  origins : ∃ place, after.origins = before.origins ++ [(key, place)]
  diagnostics : ∃ warnings, OnlyWarnings warnings ∧ after.diagnostics = before.diagnostics ++ warnings
  model : before.model.frozen = false → before.model.Vacant kind key →
    ∃ part, before.model.Gains after.model kind key part

/-- A context in which a schema has one property more. -/
structure Context.Extends (before after : Context) : Prop where
  origins : after.origins = before.origins
  diagnostics : ∃ warnings, OnlyWarnings warnings ∧ after.diagnostics = before.diagnostics ++ warnings
  model : before.model.frozen = false → before.model.GainsProperty after.model

/-- A context in which nothing else is counted than in an earlier one. -/
structure Context.Aside (before after : Context) : Prop where
  model : ∃ info, after.model = { before.model with info }
  origins : before.origins <+: after.origins

section Handlers

variable {unit : String} {symbol : Symbol} {node : Node} {before after : Context}

theorem declares_server (h : Yields (server unit symbol node) before () after) :
    ∃ url, (View.of unit node).text "url" = .ok url ∧
      before.Declares .server (.server url.display) after := by
  simp only [server, yields_bind_iff, yields_enter_iff, yields_requireGlobal_iff, yields_required_iff,
    yields_look_iff, yields_claim_iff, yields_alter_iff, and_assoc, exists_and_left, exists_eq_left,
    exists_const] at h
  obtain ⟨_, ⟨warnings, hwarnings, rfl⟩, -, url, hurl, -, hunclaimed, description, -, rfl⟩ := h
  exact ⟨url, hurl, hunclaimed, ⟨_, rfl⟩, ⟨warnings, onlyWarnings_of_warnings hwarnings, rfl⟩,
    fun hfrozen _ => ⟨_, Model.gains_addServer hfrozen⟩⟩

theorem declares_apiTag (h : Yields (apiTag unit symbol node) before () after) :
    ∃ name, (View.of unit node).text "name" = .ok name ∧
      before.Declares .tag (.tag name.display) after := by
  simp only [apiTag, yields_bind_iff, yields_enter_iff, yields_requireGlobal_iff, yields_required_iff,
    yields_look_iff, yields_claim_iff, yields_alter_iff, and_assoc, exists_and_left, exists_eq_left,
    exists_const] at h
  obtain ⟨_, ⟨warnings, hwarnings, rfl⟩, -, name, hname, -, hunclaimed, description, -, rfl⟩ := h
  exact ⟨name, hname, hunclaimed, ⟨_, rfl⟩, ⟨warnings, onlyWarnings_of_warnings hwarnings, rfl⟩,
    fun hfrozen hvacant => ⟨_, Model.gains_addTag hfrozen hvacant⟩⟩

theorem declares_operation (h : Yields (operation unit symbol node) before () after) :
    ∃ path, (View.of unit node).text "path" = .ok path ∧
      before.Declares .operation
        (.operation (path.text?.elim path fun route => .text (Route.normalize route)).display
          (Text.lower (View.of unit node).tag)) after := by
  simp only [operation, yields_bind_iff, yields_enter_iff, yields_required_iff, yields_look_iff,
    yields_claim_iff, yields_alter_iff, yields_ite_iff, not_yields_refuse, and_assoc, exists_and_left,
    exists_eq_left, exists_const, false_and, and_false, false_or] at h
  obtain ⟨_, ⟨warnings, hwarnings, rfl⟩, -, path, hpath, -, operationId, -, tags, -, summary, -,
    description, -, deprecated, -, security, -, nodes, -, parameters, _, hparameters, bodies, -, -, body,
    _, hbody, answers, -, responses, _, hresponses, _, -, hunclaimed, rfl⟩ := h
  obtain ⟨first, hfirst, rfl⟩ := (Reads.mapM fun child _ =>
    (Reads.enter unit child).bind (reads_parameter unit)).warns (yields_iff_ends.mp hparameters)
  obtain ⟨second, hsecond, rfl⟩ := (Reads.optionMapM fun child _ =>
    (Reads.enter unit child).bind (reads_requestBody unit)).warns (yields_iff_ends.mp hbody)
  obtain ⟨third, hthird, rfl⟩ :=
    (reads_statusResponses _ _ _ _).warns (yields_iff_ends.mp hresponses)
  refine ⟨path, hpath, hunclaimed, ⟨_, rfl⟩, ⟨warnings ++ (first ++ (second ++ third)), ?_, ?_⟩,
    fun hfrozen hvacant => ⟨_, Model.gains_addOperation hfrozen rfl hvacant⟩⟩
  · exact (onlyWarnings_of_warnings hwarnings).append (hfirst.append (hsecond.append hthird))
  · simp [Context.change, Context.claim, Context.warn]

/-- A component is declared under its name. -/
theorem declares_component (collection : Collection) {view : View} {attr : String} {read : Step Part}
    (hreads : Reads read)
    (h : Yields (do
      let name ← componentName view attr
      claimComponent view collection.name name
      let part ← read
      alter fun model => model.register collection name part) before () after) :
    ∃ name, view.text attr = .ok name ∧ name ≠ .null ∧
      before.Declares (.component collection) (.component collection.name name) after := by
  simp only [yields_bind_iff, yields_componentName_iff, yields_claimComponent_iff, yields_alter_iff,
    and_assoc, exists_and_left, exists_eq_left, exists_const] at h
  obtain ⟨name, hname, hnull, -, hhashable, hunclaimed, part, _, hpart, rfl⟩ := h
  obtain ⟨warnings, hwarnings, rfl⟩ := hreads.warns (yields_iff_ends.mp hpart)
  exact ⟨name, hname, hnull, hunclaimed, ⟨_, rfl⟩, ⟨warnings, hwarnings, rfl⟩,
    fun hfrozen hvacant => ⟨_, Model.gains_register hfrozen hhashable hvacant⟩⟩

theorem Context.Declares.of_warn {kind : EntryKind} {key : Claim} {warnings : List Diagnostic}
    (hwarnings : OnlyWarnings warnings) (h : (before.warn warnings).Declares kind key after) :
    before.Declares kind key after := by
  obtain ⟨more, hmore, hdiagnostics⟩ := h.diagnostics
  refine ⟨h.unclaimed, h.origins, ⟨warnings ++ more, hwarnings.append hmore, ?_⟩, h.model⟩
  rw [hdiagnostics, Context.warn, List.append_assoc]

theorem declares_parameterComponent (h : Yields (parameterComponent unit symbol node) before () after) :
    ∃ name, (View.of unit node).text "parameter" = .ok name ∧
      before.Declares (.component .parameters) (.component Collection.parameters.name name) after := by
  unfold parameterComponent at h
  obtain ⟨_, _, hview, hrest⟩ := yields_bind_iff.mp h
  obtain ⟨rfl, warnings, hwarnings, rfl⟩ := yields_enter_iff.mp hview
  obtain ⟨name, hname, -, hdeclares⟩ := declares_component .parameters (reads_parameter _ _) hrest
  exact ⟨name, hname, hdeclares.of_warn (onlyWarnings_of_warnings hwarnings)⟩

theorem declares_requestBodyComponent
    (h : Yields (requestBodyComponent unit symbol node) before () after) :
    ∃ name, (View.of unit node).text "request" = .ok name ∧
      before.Declares (.component .requestBodies) (.component Collection.requestBodies.name name) after := by
  unfold requestBodyComponent at h
  obtain ⟨_, _, hview, hrest⟩ := yields_bind_iff.mp h
  obtain ⟨rfl, warnings, hwarnings, rfl⟩ := yields_enter_iff.mp hview
  obtain ⟨name, hname, -, hdeclares⟩ := declares_component .requestBodies (reads_requestBody _ _) hrest
  exact ⟨name, hname, hdeclares.of_warn (onlyWarnings_of_warnings hwarnings)⟩

theorem declares_responseComponent (h : Yields (responseComponent unit symbol node) before () after) :
    ∃ name, (View.of unit node).text "response" = .ok name ∧
      before.Declares (.component .responses) (.component Collection.responses.name name) after := by
  unfold responseComponent at h
  obtain ⟨_, _, hview, hrest⟩ := yields_bind_iff.mp h
  obtain ⟨rfl, warnings, hwarnings, rfl⟩ := yields_enter_iff.mp hview
  split at hrest
  · split at hrest
    · exact absurd hrest not_yields_refuse
    · exact absurd hrest not_yields_giveUp
  · obtain ⟨name, hname, -, hdeclares⟩ := declares_component .responses (reads_response _ _) hrest
    exact ⟨name, hname, hdeclares.of_warn (onlyWarnings_of_warnings hwarnings)⟩

theorem declares_securitySchemeComponent
    (h : Yields (securitySchemeComponent unit symbol node) before () after) :
    ∃ name, (View.of unit node).text "securityScheme" = .ok name ∧
      before.Declares .securityScheme (.component "securitySchemes" name) after := by
  simp only [securitySchemeComponent, yields_bind_iff, yields_enter_iff, yields_componentName_iff,
    yields_required_iff, yields_look_iff, yields_claimComponent_iff, yields_alter_iff, and_assoc,
    exists_and_left, exists_eq_left, exists_const] at h
  obtain ⟨_, ⟨warnings, hwarnings, rfl⟩, component, hcomponent, -, -, type, -, -, _, -, hhashable,
    hunclaimed, scheme, -, bearerFormat, -, location, -, name, -, description, -, rfl⟩ := h
  exact ⟨component, hcomponent, hunclaimed, ⟨_, rfl⟩,
    ⟨warnings, onlyWarnings_of_warnings hwarnings, rfl⟩,
    fun hfrozen hvacant => ⟨_, Model.gains_registerScheme hfrozen hhashable hvacant⟩⟩

theorem given_of_yields_schemaName {view : View} {name : Datum}
    (h : Yields (schemaName view symbol) before name after) :
    ∃ given, view.text "schema" = .ok given ∧ after = before ∧
      name = if given.isNull ∧ symbol.kind = .type then symbol.name else given := by
  simp only [schemaName, yields_bind_iff, yields_look_iff, yields_ite_iff, yields_pure_iff,
    yields_componentName_iff, and_assoc, exists_and_left, exists_eq_left] at h
  obtain ⟨given, hgiven, ⟨hnull, htype, rfl, rfl⟩ | ⟨hnamed, hname, -, -, rfl⟩⟩ := h
  · exact ⟨given, hgiven, rfl, (if_pos ⟨hnull, htype⟩).symm⟩
  · obtain rfl : given = name := Except.ok.inj (hgiven.symm.trans hname)
    exact ⟨given, hgiven, rfl, (if_neg hnamed).symm⟩

theorem declares_schemaComponent (h : Yields (schemaComponent unit symbol node) before () after) :
    ∃ given, (View.of unit node).text "schema" = .ok given ∧
      before.Declares (.component .schemas)
        (.component Collection.schemas.name
          (if given.isNull ∧ symbol.kind = .type then symbol.name else given)) after := by
  simp only [schemaComponent, yields_bind_iff, yields_enter_iff, yields_claimComponent_iff,
    yields_alter_iff, yields_ite_iff, not_yields_refuse, yields_pure_iff, yields_rememberSchema_iff,
    and_assoc, exists_and_left, exists_eq_left, exists_const, false_and, and_false, false_or] at h
  obtain ⟨_, ⟨warnings, hwarnings, rfl⟩, -, name, _, hname, hhashable, hunclaimed, schema, _, hschema,
    hrest⟩ := h
  obtain ⟨given, hgiven, rfl, rfl⟩ := given_of_yields_schemaName hname
  obtain ⟨more, hmore, rfl⟩ := (reads_viewedSchema _ _).warns (yields_iff_ends.mp hschema)
  refine ⟨given, hgiven, ?_⟩
  have hdiagnostics := (onlyWarnings_of_warnings hwarnings).append hmore
  -- Keeping the schema of a type in mind changes neither the model nor what is claimed.
  obtain ⟨-, -, rfl⟩ | ⟨-, -, rfl⟩ := hrest <;>
    exact ⟨hunclaimed, ⟨_, rfl⟩, ⟨_, hdiagnostics, List.append_assoc _ _ _⟩,
      fun hfrozen hvacant => ⟨_, Model.gains_register hfrozen hhashable hvacant⟩⟩

/-- A field adds its property to the schema of its type. -/
theorem extends_fieldProperty (h : Yields (fieldProperty unit symbol node) before () after) :
    before.Extends after := by
  simp only [fieldProperty, yields_bind_iff, yields_enter_iff, yields_ite_iff, not_yields_refuse,
    yields_look_iff, yields_get_iff, and_assoc, exists_and_left, exists_eq_left, exists_const, false_and,
    and_false, false_or] at h
  obtain ⟨_, ⟨warnings, hwarnings, rfl⟩, -, _, -, -, h⟩ := h
  split at h
  · next facets properties items hget =>
    simp only [yields_bind_iff, yields_ite_iff, not_yields_refuse, yields_look_iff, yields_alter_iff,
      and_assoc, exists_and_left, exists_eq_left, exists_const, false_and, and_false, false_or] at h
    obtain ⟨given, -, -, hnew, schema, _, hschema, property, _, hproperty, rfl⟩ := h
    obtain ⟨first, hfirst, rfl⟩ := (reads_viewedSchema _ _).warns (yields_iff_ends.mp hschema)
    obtain ⟨second, hsecond, rfl⟩ := (reads_withInferredType _ _).warns (yields_iff_ends.mp hproperty)
    refine ⟨rfl, ⟨warnings ++ (first ++ second), ?_, ?_⟩, fun hfrozen => ?_⟩
    · exact (onlyWarnings_of_warnings hwarnings).append (hfirst.append hsecond)
    · simp [Context.change, Context.warn]
    · exact Model.gainsProperty_addProperty hfrozen hget (by simpa using hnew) property
  · exact absurd h not_yields_refuse

section Aside

variable {start : Context}

theorem Notes.keeps_aside {α : Type} {step : Step α} (h : Notes step) : Keeps start.Aside step := by
  intro context result after haside hends
  have hnoted := h context context result after (.refl context) hends
  refine ⟨?_, haside.origins.trans hnoted.origins⟩
  rw [hnoted.model]
  exact haside.model

theorem keeps_aside_alter {change : Model → Model × Option ModelError}
    (h : ∀ model, ∃ info, (change model).1 = { model with info }) : Keeps start.Aside (alter change) := by
  refine Keeps.alter fun context haside => ⟨?_, haside.origins⟩
  obtain ⟨info, hmodel⟩ := haside.model
  obtain ⟨later, hlater⟩ := h context.model
  exact ⟨later, by rw [hlater, hmodel]⟩

theorem keeps_aside_contact : Keeps start.Aside (contact unit symbol node) := by
  refine (notes_enterGlobal unit symbol node _).keeps_aside.bind fun _ _ _ _ _ =>
    Keeps.look_bind fun _ _ => Keeps.look_bind fun _ _ => Keeps.look_bind fun _ _ =>
    keeps_aside_alter fun model => ?_
  simp only [withContact]
  split
  · exact ⟨_, rfl⟩
  · exact ⟨model.info, rfl⟩

theorem keeps_aside_license : Keeps start.Aside (license unit symbol node) := by
  refine (notes_enterGlobal unit symbol node _).keeps_aside.bind fun _ _ _ _ _ =>
    Keeps.look_bind fun _ _ => Keeps.look_bind fun _ _ => Keeps.look_bind fun _ _ =>
    keeps_aside_alter fun model => ?_
  simp only [withLicense]
  split
  · exact ⟨_, rfl⟩
  · exact ⟨model.info, rfl⟩

theorem keeps_aside_info : Keeps start.Aside (info unit symbol node) := by
  have hinform (change : Info → Info) : Keeps start.Aside (alterInfo change) := by
    refine keeps_aside_alter fun model => ?_
    split
    · exact ⟨_, rfl⟩
    · exact ⟨model.info, rfl⟩
  have hwarn (context : Context) (warnings : List Diagnostic) (h : start.Aside context) :
      start.Aside (context.warn warnings) := ⟨h.model, h.origins⟩
  refine (notes_enterGlobal unit symbol node _).keeps_aside.bind fun _ _ _ _ _ => ?_
  refine Keeps.look_bind fun _ _ => (hinform _).bind fun _ _ _ _ _ =>
    Keeps.look_bind fun _ _ => (hinform _).bind fun _ _ _ _ _ =>
    Keeps.look_bind fun _ _ => (hinform _).bind fun _ _ _ _ _ =>
    Keeps.look_bind fun _ _ => (hinform _).bind fun _ _ _ _ _ => ?_
  refine Keeps.look_bind fun contacts _ => Keeps.look_bind fun licenses _ => Keeps.look_bind fun _ _ => ?_
  refine (Keeps.forM fun child _ => keeps_aside_contact.attempt hwarn).bind fun _ _ _ _ _ => ?_
  exact Keeps.forM fun child _ => keeps_aside_license.attempt hwarn

end Aside

end Handlers

theorem kindOf?_of_methodTags {tag : String} (h : tag ∈ methodTags) : kindOf? tag = some .operation := by
  revert tag
  decide

theorem kindOf?_of_parameterTags {tag : String} (h : tag ∈ parameterTags) :
    kindOf? tag = some (.component .parameters) := by
  revert tag
  decide

namespace Placed

variable {placed : Placed} {before after : Context}

/-- A counted annotation that comes to its end declares what it lays claim to. -/
theorem declares_of_yields {kind : EntryKind} (hkind : placed.kind? = some kind)
    (h : Yields (declare placed) before () after) :
    ∃ key, placed.claim? = some key ∧ before.Declares kind key after := by
  simp only [declare, yields_bind_iff, yields_look_iff, and_assoc, exists_and_left, exists_eq_left] at h
  obtain ⟨_, -, h⟩ := h
  split at h
  case h_2 => exact absurd h not_yields_throw
  next handler hfound =>
  obtain ⟨tag, htext, hhandler⟩ := Option.bind_eq_some_iff.mp hfound
  have hclaim : placed.kind? = kindOf? tag := by
    rw [kind?, htext]
    rfl
  have htagKind : kindOf? tag = some kind := hclaim.symm.trans hkind
  have hclaims {attr : String} {key : Datum → Claim}
      (hshape : placed.claim? = ((View.of placed.unit placed.node).text attr).toOption.map key)
      (hdeclares : ∃ text, (View.of placed.unit placed.node).text attr = .ok text ∧
        before.Declares kind (key text) after) :
      ∃ key, placed.claim? = some key ∧ before.Declares kind key after := by
    obtain ⟨text, htext, hdeclares⟩ := hdeclares
    exact ⟨key text, by rw [hshape, htext]; rfl, hdeclares⟩
  unfold handler? at hhandler
  split at hhandler
  case h_10 =>
    split_ifs at hhandler with hmethod hparameter
    · rw [kindOf?_of_methodTags (by simpa using hmethod)] at htagKind
      cases hhandler
      cases htagKind
      exact hclaims (by rw [claim?, hkind]) (declares_operation h)
    · rw [kindOf?_of_parameterTags (by simpa using hparameter)] at htagKind
      cases hhandler
      cases htagKind
      exact hclaims (by rw [claim?, hkind]; rfl) (declares_parameterComponent h)
  all_goals
    cases hhandler
    cases htagKind
  case h_4 => exact hclaims (by rw [claim?, hkind]) (declares_server h)
  case h_5 => exact hclaims (by rw [claim?, hkind]) (declares_apiTag h)
  case h_6 => exact hclaims (by simp [claim?, hkind, nameAttribute]) (declares_schemaComponent h)
  case h_7 => exact hclaims (by rw [claim?, hkind]; rfl) (declares_requestBodyComponent h)
  case h_8 => exact hclaims (by rw [claim?, hkind]; rfl) (declares_responseComponent h)
  case h_9 => exact hclaims (by rw [claim?, hkind]) (declares_securitySchemeComponent h)

/-- Annotations that are not counted change no more than the general information. -/
theorem keeps_aside (hkind : placed.kind? = none) {start : Context} :
    Keeps start.Aside (declare placed) := by
  refine Keeps.look_bind fun _ _ => ?_
  split
  case h_2 => exact Keeps.throw _
  next handler hfound =>
  obtain ⟨tag, htext, hhandler⟩ := Option.bind_eq_some_iff.mp hfound
  have htagKind : kindOf? tag = none := by
    rw [← hkind, kind?, htext]
    rfl
  unfold handler? at hhandler
  split at hhandler
  case h_1 =>
    cases hhandler
    exact keeps_aside_info
  case h_2 =>
    cases hhandler
    exact keeps_aside_contact
  case h_3 =>
    cases hhandler
    exact keeps_aside_license
  case h_10 =>
    split_ifs at hhandler with hmethod hparameter
    · rw [kindOf?_of_methodTags (by simpa using hmethod)] at htagKind
      cases htagKind
    · rw [kindOf?_of_parameterTags (by simpa using hparameter)] at htagKind
      cases htagKind
  all_goals cases htagKind

end Placed

end DocCompiler.Build
