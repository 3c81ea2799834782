import DocCompiler.Proofs.Build.Account
import DocCompiler.Proofs.Build.Shown
import DocCompiler.Proofs.Document.Follow

/-!
An annotation of which nothing is reported leaves all that is heeded in it in the document.
-/

namespace DocCompiler.Build

open Annotation Relation

/-- A step takes no diagnostic back. -/
def Grows {α : Type} (step : Step α) : Prop :=
  ∀ count : Nat, Keeps (fun context => count ≤ context.reported) step

namespace Grows

variable {α β : Type} {step : Step α} {next : α → Step β} {context after : Context}

theorem le (h : Grows step) {value : α} (hyields : Yields step context value after) :
    context.reported ≤ after.reported :=
  h context.reported context _ after (Nat.le_refl _) (yields_iff_ends.mp hyields)

theorem warn {count : Nat} (context : Context) (warnings : List Diagnostic)
    (h : count ≤ context.reported) : count ≤ (context.warn warnings).reported := by
  rw [Context.reported_warn]
  omega

theorem of_reads (h : Reads step) : Grows step :=
  fun _ => h.keeps warn

theorem bind (h : Grows step) (hnext : ∀ value, Grows (next value)) : Grows (step >>= next) :=
  fun count => (h count).bind fun _ value _ _ _ => hnext value count

theorem change {change : Context → Context}
    (h : ∀ context, (change context).diagnostics = context.diagnostics) :
    Grows (modify change : Step PUnit) := by
  refine fun count => Keeps.alter fun context hcount => ?_
  rwa [Context.reported, h]

theorem claim (view : View) (key : Claim) : Grows (Build.claim view key) :=
  fun _ => keeps_claim fun _ h => h

theorem attempt {step : Step Unit} (h : Grows step) : Grows (Build.attempt step) :=
  fun count => (h count).attempt warn

theorem forM {items : List α} {f : α → Step PUnit} (h : ∀ item ∈ items, Grows (f item)) :
    Grows (items.forM f) :=
  fun count => Keeps.forM fun item hitem => h item hitem count

/-- A step that is guarded and of which nothing is reported comes to its end. -/
theorem yields_of_guarded {step : Step Unit} (h : Grows step)
    (hguarded : guarded step context = .ok after) (hquiet : after.reported ≤ context.reported) :
    Yields step context () after := by
  rcases guarded_eq_ok_iff.mp hguarded with hyields | ⟨fault, between, hends, rfl⟩
  · exact hyields
  · have hle : context.reported ≤ between.reported :=
      h context.reported context _ between (Nat.le_refl _) hends
    rw [Context.reported_warn, List.length_singleton] at hquiet
    omega

/-- Of steps that are attempted one after the other without a report, each comes to its end. -/
theorem exists_of_attempts {items : List α} {f : α → Step Unit} (h : ∀ item, Grows (f item))
    (hyields : Yields (items.forM fun item => Build.attempt (f item)) context () after)
    (hquiet : after.reported ≤ context.reported) {item : α} (hitem : item ∈ items) :
    ∃ before between, Yields (f item) before () between ∧ between.reported ≤ before.reported := by
  induction items generalizing context with
  | nil => cases hitem
  | cons first rest ih =>
      obtain ⟨_, between, hfirst, hrest⟩ := yields_bind_iff.mp hyields
      have hle := (h first).attempt.le hfirst
      have hlater := (forM fun item _ => (h item).attempt).le hrest
      rcases List.mem_cons.mp hitem with rfl | hmem
      · have hguarded := yields_attempt_iff.mp hfirst
        exact ⟨context, between, (h item).yields_of_guarded hguarded (by omega), by omega⟩
      · exact ih hrest (by omega) hmem

end Grows

namespace Context.Tracked

variable {context after : Context} {place : Location}

theorem of_reads (h : context.Tracked) {α : Type} {step : Step α} {value : α} (hreads : Reads step)
    (hyields : Yields step context value after) : after.Tracked := by
  obtain ⟨warnings, -, rfl⟩ := hreads.warns (yields_iff_ends.mp hyields)
  exact ⟨h.unfrozen, h.claimed⟩

theorem displays_addOperation (h : context.Tracked) {operation : Operation} {parameters : List Part}
    {body : Option Part} {responses : Registry} {method : String} (hmethod : operation.method = .text method)
    (hunclaimed : ∀ entry ∈ context.origins,
      entry.1.same (.operation operation.path.display method) = false)
    (hshows : Endpoint.Shows place ⟨operation, parameters, body, responses⟩) :
    (context.model.addOperation (.operation operation parameters body responses)).1.Displays place := by
  let endpoint : Endpoint := ⟨operation, parameters, body, responses⟩
  have hgains : context.model.Gains (context.model.addOperation endpoint.part).1 .operation
      (.operation operation.path.display method) endpoint.part :=
    Model.gains_addOperation h.unfrozen hmethod (h.vacant hunclaimed .operation)
  exact ⟨.operation, _, hgains.gained.mem_iff.mpr List.mem_cons_self, endpoint, rfl, hshows⟩

theorem displays_register (h : context.Tracked) {collection : Collection} {name : Datum} {part : Part}
    (hname : name.isHashable = true)
    (hunclaimed : ∀ entry ∈ context.origins, entry.1.same (.component collection.name name) = false)
    (hshows : part.Shows place) : (context.model.register collection name part).1.Displays place := by
  have hgains : context.model.Gains (context.model.register collection name part).1
      (.component collection) (.component collection.name name) part :=
    Model.gains_register h.unfrozen hname (h.vacant hunclaimed (.component collection))
  exact ⟨.component collection, _, hgains.gained.mem_iff.mpr List.mem_cons_self, hshows⟩

end Context.Tracked

section Handlers

variable {unit : String} {symbol : Symbol} {node : Node} {context after : Context}

theorem grows_enterGlobal (tag : String) : Grows (enterGlobal unit symbol node tag) := by
  refine (Grows.of_reads (Reads.enter unit node)).bind fun view => ?_
  refine (Grows.of_reads (reads_requireGlobal view symbol)).bind fun _ => ?_
  exact (Grows.claim view _).bind fun _ => .of_reads (Reads.pure _)

theorem grows_alter (change : Model → Model × Option ModelError) : Grows (alter change) :=
  .change fun _ => rfl

theorem grows_contact : Grows (contact unit symbol node) := by
  refine (grows_enterGlobal _).bind fun _ => ?_
  repeat' first
    | exact grows_alter _
    | refine (Grows.of_reads (Reads.look _)).bind fun _ => ?_

theorem grows_license : Grows (license unit symbol node) := by
  refine (grows_enterGlobal _).bind fun _ => ?_
  repeat' first
    | exact grows_alter _
    | refine (Grows.of_reads (Reads.look _)).bind fun _ => ?_

theorem grows_info : Grows (info unit symbol node) := by
  refine (grows_enterGlobal _).bind fun _ => ?_
  repeat' first
    | exact Grows.forM fun _ _ => grows_license.attempt
    | refine (Grows.forM fun _ _ => grows_contact.attempt).bind fun _ => ?_
    | refine (grows_alter _).bind fun _ => ?_
    | refine (Grows.of_reads (Reads.look _)).bind fun _ => ?_

variable {shows : Location → Prop} {tag : String}

/-- In an annotation that takes no others nothing is heeded. -/
theorem covered_of_plain (hnode : node.tag = .text tag) (hslots : tagSlots tag = []) (hpart : tag ∉ partTags)
    (hwarnings : (View.of unit node).warnings = .ok [])
    (hothers : ∀ name ∈ (attributesOf? tag).getD [], (View.of unit node).Untagged name)
    (hchildren : tag ∈ uncheckedTags ∨ (View.of unit node).checkChildren [] = .ok ()) :
    Covered unit node shows :=
  .of_slots hnode hslots (fun hself => absurd hself (Node.not_isPart hnode hpart)) hwarnings
    (fun name hname => .untagged (hothers name hname)) hchildren (by simp)

theorem warnings_of_yields_enterGlobal {view : View} {claimed : String}
    (h : Yields (enterGlobal unit symbol node claimed) context view after)
    (hquiet : after.reported ≤ context.reported) :
    view = View.of unit node ∧ (View.of unit node).warnings = .ok [] := by
  simp only [enterGlobal, yields_bind_iff, yields_requireGlobal_iff, yields_claim_iff,
    yields_pure_iff, and_assoc, exists_and_left, exists_eq_left, exists_const] at h
  obtain ⟨found, between, henter, -, -, rfl, rfl⟩ := h
  obtain ⟨rfl, hwarnings, -⟩ := warnings_of_yields_enter henter hquiet
  exact ⟨rfl, hwarnings⟩

theorem covered_of_yields_contact (hnode : node.tag = .text "Contact")
    (h : Yields (contact unit symbol node) context () after) (hquiet : after.reported ≤ context.reported) :
    Covered unit node shows := by
  simp only [contact, yields_bind_iff, yields_look_iff, yields_alter_iff, and_assoc, exists_and_left,
    exists_eq_left] at h
  obtain ⟨view, between, henter, name, hname, email, hemail, url, hurl, rfl⟩ := h
  obtain ⟨rfl, hwarnings⟩ := warnings_of_yields_enterGlobal henter hquiet
  refine covered_of_plain hnode rfl (by decide) hwarnings ?_ (.inl (by decide))
  simp only [attributesOf?, Option.getD_some, List.forall_mem_cons]
  exact ⟨View.untagged_of_text hname, View.untagged_of_text hemail, View.untagged_of_text hurl, by simp⟩

theorem covered_of_yields_license (hnode : node.tag = .text "License")
    (h : Yields (license unit symbol node) context () after) (hquiet : after.reported ≤ context.reported) :
    Covered unit node shows := by
  simp only [license, yields_bind_iff, yields_look_iff, yields_alter_iff, and_assoc, exists_and_left,
    exists_eq_left] at h
  obtain ⟨view, between, henter, name, hname, url, hurl, identifier, hidentifier, rfl⟩ := h
  obtain ⟨rfl, hwarnings⟩ := warnings_of_yields_enterGlobal henter hquiet
  refine covered_of_plain hnode rfl (by decide) hwarnings ?_ (.inl (by decide))
  simp only [attributesOf?, Option.getD_some, List.forall_mem_cons]
  exact ⟨View.untagged_of_text hname, View.untagged_of_text hurl, View.untagged_of_text hidentifier,
    by simp⟩

theorem covered_of_yields_server (hnode : node.tag = .text "Server")
    (h : Yields (server unit symbol node) context () after) (hquiet : after.reported ≤ context.reported) :
    Covered unit node shows := by
  simp only [server, yields_bind_iff, yields_requireGlobal_iff, yields_required_iff,
    yields_look_iff, yields_claim_iff, yields_alter_iff, and_assoc, exists_and_left, exists_eq_left,
    exists_const] at h
  obtain ⟨view, between, henter, -, url, hurl, -, -, description, hdescription, rfl⟩ := h
  obtain ⟨rfl, hwarnings, rfl⟩ := warnings_of_yields_enter henter hquiet
  refine covered_of_plain hnode rfl (by decide) hwarnings ?_ (.inl (by decide))
  simp only [attributesOf?, Option.getD_some, List.forall_mem_cons]
  exact ⟨View.untagged_of_text hurl, View.untagged_of_text hdescription, by simp⟩

theorem covered_of_yields_apiTag (hnode : node.tag = .text "Tag")
    (h : Yields (apiTag unit symbol node) context () after) (hquiet : after.reported ≤ context.reported) :
    Covered unit node shows := by
  simp only [apiTag, yields_bind_iff, yields_requireGlobal_iff, yields_required_iff,
    yields_look_iff, yields_claim_iff, yields_alter_iff, and_assoc, exists_and_left, exists_eq_left,
    exists_const] at h
  obtain ⟨view, between, henter, -, name, hname, -, -, description, hdescription, rfl⟩ := h
  obtain ⟨rfl, hwarnings, rfl⟩ := warnings_of_yields_enter henter hquiet
  refine covered_of_plain hnode rfl (by decide) hwarnings ?_ (.inl (by decide))
  simp only [attributesOf?, Option.getD_some, List.forall_mem_cons]
  exact ⟨View.untagged_of_text hname, View.untagged_of_text hdescription, by simp⟩

theorem covered_of_yields_securitySchemeComponent (hnode : node.tag = .text "SecurityScheme")
    (h : Yields (securitySchemeComponent unit symbol node) context () after)
    (hquiet : after.reported ≤ context.reported) : Covered unit node shows := by
  simp only [securitySchemeComponent, yields_bind_iff, yields_componentName_iff, yields_required_iff,
    yields_look_iff, yields_claimComponent_iff, yields_alter_iff, and_assoc, exists_and_left,
    exists_eq_left, exists_const] at h
  obtain ⟨view, between, henter, component, hcomponent, -, -, type, htype, -, _, hchecked, -, -, scheme,
    hscheme, bearerFormat, hbearerFormat, location, hlocation, name, hname, description, hdescription,
    rfl⟩ := h
  obtain ⟨rfl, hwarnings, rfl⟩ := warnings_of_yields_enter henter hquiet
  refine covered_of_plain hnode rfl (by decide) hwarnings ?_ (.inr hchecked)
  simp only [attributesOf?, Option.getD_some, List.forall_mem_cons]
  exact ⟨View.untagged_of_text hcomponent, View.untagged_of_text htype, View.untagged_of_text hscheme,
    View.untagged_of_text hbearerFormat, View.untagged_of_text hlocation, View.untagged_of_text hname,
    View.untagged_of_text hdescription, by simp⟩

theorem covered_of_yields_info (hnode : node.tag = .text "Info")
    (h : Yields (info unit symbol node) context () after) (hquiet : after.reported ≤ context.reported) :
    Covered unit node shows := by
  simp only [info, alterInfo, yields_bind_iff, yields_look_iff, yields_alter_iff, and_assoc,
    exists_and_left, exists_eq_left, exists_const] at h
  obtain ⟨view, first, henter, title, htitle, version, hversion, description, hdescription,
    termsOfService, htermsOfService, contacts, hcontacts, licenses, hlicenses, _, hchecked, _, second,
    hfirst, hsecond⟩ := h
  have hentered := (grows_enterGlobal _).le henter
  obtain ⟨informed, hinformed, hcontacting⟩ : ∃ informed : Context, informed.reported = first.reported ∧
      Yields (contacts.forM fun child => attempt (contact unit symbol child)) informed () second := by
    refine ⟨_, ?_, hfirst⟩
    rfl
  have hcontacted := (Grows.forM fun _ _ => grows_contact.attempt).le hcontacting
  have hlicensed := (Grows.forM fun _ _ => grows_license.attempt).le hsecond
  obtain ⟨rfl, hwarnings⟩ := warnings_of_yields_enterGlobal henter (by omega)
  have hattributes : ∀ name ∈ (attributesOf? "Info").getD [], (View.of unit node).Watched "Info" name := by
    simp only [attributesOf?, Option.getD_some, List.forall_mem_cons]
    exact ⟨.untagged (View.untagged_of_text htitle), .untagged (View.untagged_of_textOrNumber hversion),
      .untagged (View.untagged_of_text hdescription), .untagged (View.untagged_of_text htermsOfService),
      .slot List.mem_cons_self rfl, .slot (List.mem_cons_of_mem _ (List.mem_singleton_self _)) rfl,
      by simp⟩
  have hslots : tagSlots "Info" = [("contact", ["Contact"]), ("license", ["License"])] := rfl
  refine .of_slots hnode hslots (fun hself => absurd hself (Node.not_isPart hnode (by decide))) hwarnings
    hattributes (.inr hchecked) ?_
  rw [List.forall_mem_cons, List.forall_mem_singleton]
  refine ⟨⟨contacts, hcontacts, fun inner hinner _ => ?_⟩, ⟨licenses, hlicenses, fun inner hinner _ => ?_⟩⟩
  · have htag : inner.tag = .text "Contact" := View.tag_of_nested hcontacts hinner
    obtain ⟨before, between, hcontact, hsilent⟩ :=
      Grows.exists_of_attempts (fun _ => grows_contact) hcontacting (by omega) hinner
    exact covered_of_yields_contact htag hcontact hsilent
  · have htag : inner.tag = .text "License" := View.tag_of_nested hlicenses hinner
    obtain ⟨before, between, hlicense, hsilent⟩ :=
      Grows.exists_of_attempts (fun _ => grows_license) hsecond (by omega) hinner
    exact covered_of_yields_license htag hlicense hsilent

/-- Attributes of an operation that take no annotations. -/
def operationAttributes : List String :=
  ["path", "operationId", "tags", "summary", "description", "deprecated", "security"]

theorem operation_attribute_cases :
    ∀ tag ∈ methodTags, ∀ name ∈ (attributesOf? tag).getD [],
      (∃ slot ∈ tagSlots tag, slot.1 = name) ∨ name ∈ operationAttributes := by
  decide

theorem methodTags_not_partTags : ∀ tag ∈ methodTags, tag ∉ partTags := by
  decide

theorem tagSlots_of_methodTags :
    ∀ tag ∈ methodTags, tagSlots tag =
      [("parameters", parameterTags), ("requestBody", ["RequestBody"]), ("responses", ["Response"])] := by
  decide

theorem covered_of_yields_operation (htracked : context.Tracked) (hmethod : tag ∈ methodTags)
    (hnode : node.tag = .text tag) (h : Yields (operation unit symbol node) context () after)
    (hquiet : after.reported ≤ context.reported) : Covered unit node after.model.Displays := by
  simp only [operation, yields_bind_iff, yields_required_iff, yields_look_iff,
    yields_claim_iff, yields_alter_iff, yields_ite_iff, not_yields_refuse, and_assoc, exists_and_left,
    exists_eq_left, exists_const, false_and, and_false, false_or] at h
  obtain ⟨view, _, henter, -, path, hpath, -, operationId, hoperationId, tags, htags, summary, hsummary,
    description, hdescription, deprecated, hdeprecated, security, hsecurity, nodes, hnodes, parameters,
    second, hparameters, bodies, hbodies, hone, body, third, hbody, answers, hanswers, responses, fourth,
    hresponses, _, hchecked, hunclaimed, rfl⟩ := h
  have hparameterReads (child : Node) : Reads (do parameter unit (← enter unit child)) :=
    (Reads.enter unit child).bind (reads_parameter unit)
  have hbodyReads (child : Node) : Reads (do requestBody unit (← enter unit child)) :=
    (Reads.enter unit child).bind (reads_requestBody unit)
  have hentered := (Reads.enter unit node).reported_le henter
  have hfirst := (Reads.mapM fun child _ => hparameterReads child).reported_le hparameters
  have hsecond := (Reads.optionMapM fun child _ => hbodyReads child).reported_le hbody
  have hthird := (reads_statusResponses unit _ _ _).reported_le hresponses
  rw [Context.reported_change, Context.reported_claim] at hquiet
  obtain ⟨rfl, hwarnings, rfl⟩ := warnings_of_yields_enter henter (by omega)
  have htracked : fourth.Tracked :=
    ((htracked.of_reads (Reads.mapM fun child _ => hparameterReads child) hparameters).of_reads
      (Reads.optionMapM fun child _ => hbodyReads child) hbody).of_reads
        (reads_statusResponses unit _ _ _) hresponses
  have hread : ∀ name ∈ operationAttributes, (View.of unit node).Untagged name := by
    simp only [operationAttributes, List.forall_mem_cons]
    exact ⟨View.untagged_of_text hpath, View.untagged_of_text hoperationId, View.untagged_of_texts htags,
      View.untagged_of_text hsummary, View.untagged_of_text hdescription,
      View.untagged_of_flag hdeprecated, View.untagged_of_literal hsecurity, by simp⟩
  have hattributes : ∀ name ∈ (attributesOf? tag).getD [], (View.of unit node).Watched tag name := by
    intro name hname
    rcases operation_attribute_cases tag hmethod name hname with ⟨slot, hslot, rfl⟩ | hfound
    · exact .slot hslot rfl
    · exact .untagged (hread name hfound)
  refine .of_slots hnode (tagSlots_of_methodTags tag hmethod) (fun hself => ?_) hwarnings hattributes
    (.inr (View.checkChildren_of_subset hchecked (by decide))) ?_
  · exact absurd hself (Node.not_isPart hnode (methodTags_not_partTags tag hmethod))
  rw [List.forall_mem_cons, List.forall_mem_cons, List.forall_mem_singleton]
  refine ⟨⟨nodes, hnodes, fun inner hinner _ => ?_⟩, ⟨bodies, hbodies, fun inner hinner _ => ?_⟩,
    ⟨answers, hanswers, fun inner hinner _ => ?_⟩⟩
  · obtain ⟨part, hpart, hcovered⟩ := covered_of_yields_mapM hparameterReads (fun child hchild =>
      tells_enter (reads_parameter unit) (tells_parameter (View.mem_of_nested hnodes hchild).1))
      hparameters (by omega) inner hinner
    exact hcovered.mono fun place hplace =>
      htracked.displays_addOperation rfl hunclaimed (hplace.endpoint_parameter hpart)
  · obtain ⟨part, hpart, hsome⟩ := exists_of_yields_head? hbody hinner (not_mem_tail_of_length hone)
    have htag : inner.tag = .text "RequestBody" := View.tag_of_nested hbodies hinner
    have hcovered := tells_enter (reads_requestBody unit) (tells_requestBody htag) _ part _ hpart (by omega)
    exact hcovered.mono fun place hplace =>
      htracked.displays_addOperation rfl hunclaimed (hplace.endpoint_body hsome)
  · have htags (child : Node) (hchild : child ∈ answers) : child.tag = .text "Response" :=
      View.tag_of_nested hanswers hchild
    obtain ⟨-, hall⟩ := covered_of_yields_statusResponses htags hresponses (by omega)
    obtain ⟨⟨status, part⟩, hpart, hcovered⟩ := hall inner hinner
    exact hcovered.mono fun place hplace =>
      htracked.displays_addOperation rfl hunclaimed (hplace.endpoint_response hpart)

/-- A component that is read and registered without a report displays all that is heeded in it. -/
theorem covered_of_yields_component (htracked : context.Tracked) (collection : Collection)
    {attr : String} {read : View → Step Part} (hreads : ∀ view, Reads (read view))
    (htells : (View.of unit node).warnings = .ok [] → (View.of unit node).Untagged attr →
      Tells unit node (read (View.of unit node)))
    (h : Yields (do
      let view ← enter unit node
      let name ← componentName view attr
      claimComponent view collection.name name
      let part ← read view
      alter fun model => model.register collection name part) context () after)
    (hquiet : after.reported ≤ context.reported) : Covered unit node after.model.Displays := by
  simp only [yields_bind_iff, yields_componentName_iff, yields_claimComponent_iff, yields_alter_iff,
    and_assoc, exists_and_left, exists_eq_left, exists_const] at h
  obtain ⟨view, between, henter, name, hname, -, -, hhashable, hunclaimed, part, last, hpart, rfl⟩ := h
  have hentered := (Reads.enter unit node).reported_le henter
  have hread := (hreads view).reported_le hpart
  rw [Context.reported_change] at hquiet
  rw [Context.reported_claim] at hread
  obtain ⟨rfl, hwarnings, rfl⟩ := warnings_of_yields_enter henter (by omega)
  have hcovered := htells hwarnings (View.untagged_of_text hname) _ part last hpart hquiet
  obtain ⟨warnings, -, rfl⟩ := (hreads _).warns (yields_iff_ends.mp hpart)
  exact hcovered.mono fun place hplace => htracked.displays_register hhashable hunclaimed hplace

theorem covered_of_yields_parameterComponent (htracked : context.Tracked)
    (htag : node.tag.isAmong parameterTags = true)
    (h : Yields (parameterComponent unit symbol node) context () after)
    (hquiet : after.reported ≤ context.reported) : Covered unit node after.model.Displays :=
  covered_of_yields_component htracked .parameters (reads_parameter unit)
    (fun hwarnings _ => tells_parameter htag hwarnings) h hquiet

theorem covered_of_yields_requestBodyComponent (htracked : context.Tracked)
    (hnode : node.tag = .text "RequestBody")
    (h : Yields (requestBodyComponent unit symbol node) context () after)
    (hquiet : after.reported ≤ context.reported) : Covered unit node after.model.Displays :=
  covered_of_yields_component htracked .requestBodies (reads_requestBody unit)
    (fun hwarnings _ => tells_requestBody hnode hwarnings) h hquiet

theorem covered_of_yields_responseComponent (htracked : context.Tracked)
    (hnode : node.tag = .text "Response")
    (h : Yields (responseComponent unit symbol node) context () after)
    (hquiet : after.reported ≤ context.reported) : Covered unit node after.model.Displays := by
  refine covered_of_yields_component htracked .responses (reads_response unit)
    (tells_response hnode) ?_ hquiet
  unfold responseComponent at h
  split at h
  · split at h
    · simp at h
    · simp at h
  · exact h

theorem shows_named {part : Part} {place : Location} (h : part.Shows place) (name : Datum) :
    (named name part).Shows place := by
  cases part with
  | schema facets properties items => exact h.of_schema rfl (List.Subset.refl _)
  | _ => exact h

theorem covered_of_yields_schemaComponent (htracked : context.Tracked) (hnode : node.tag = .text "Schema")
    (h : Yields (schemaComponent unit symbol node) context () after)
    (hquiet : after.reported ≤ context.reported) : Covered unit node after.model.Displays := by
  simp only [schemaComponent, yields_bind_iff, yields_claimComponent_iff,
    yields_alter_iff, yields_ite_iff, not_yields_refuse, yields_pure_iff, yields_rememberSchema_iff,
    and_assoc, exists_and_left, exists_eq_left, exists_const, false_and, and_false, false_or] at h
  obtain ⟨view, between, henter, -, name, _, hname, hhashable, hunclaimed, part, last, hpart, hrest⟩ := h
  obtain ⟨given, hgiven, rfl, -⟩ := given_of_yields_schemaName hname
  have hentered := (Reads.enter unit node).reported_le henter
  have hread := (reads_viewedSchema unit view).reported_le hpart
  rw [Context.reported_claim] at hread
  -- Keeping the schema of a type in mind changes neither the model nor what is reported.
  have hlast : last.reported ≤ context.reported ∧
      after.model = (last.model.register .schemas name (named name part)).1 := by
    obtain ⟨-, -, rfl⟩ | ⟨-, -, rfl⟩ := hrest <;> exact ⟨hquiet, rfl⟩
  obtain ⟨hquiet, hmodel⟩ := hlast
  obtain ⟨rfl, hwarnings, rfl⟩ := warnings_of_yields_enter henter (by omega)
  have htag : node.tag.isAmong ["Schema"] = true := by simp [Datum.isAmong_iff, hnode]
  have hschema : IsSchema unit node := isSchema_of_isAmong htag (by decide)
  have hcovered := tells_viewedSchema hschema hwarnings _ part last hpart hquiet
  obtain ⟨warnings, -, rfl⟩ := (reads_viewedSchema _ _).warns (yields_iff_ends.mp hpart)
  rw [hmodel]
  exact hcovered.mono fun place hplace =>
    htracked.displays_register hhashable hunclaimed (shows_named hplace name)

theorem shows_of_yields_withInferredType {part found : Part} {place : Location}
    (h : Yields (withInferredType symbol part) context found after) (hshows : part.Shows place) :
    found.Shows place := by
  unfold withInferredType at h
  split at h
  · simp only [yields_ite_iff, yields_bind_iff, yields_pure_iff] at h
    obtain ⟨-, rfl, -⟩ | ⟨-, declared, _, -, rfl, -⟩ := h
    · exact hshows
    · refine hshows.of_schema ?_ (List.Subset.refl _)
      split_ifs <;> rfl
  · obtain ⟨rfl, -⟩ := yields_pure_iff.mp h
    exact hshows

theorem displays_addProperty {model : Model} (hfrozen : model.frozen = false) {owner name : Datum}
    {property : Part} {facets : Facets} {properties : Registry} {items : Option Part} {place : Location}
    (hget : model.components.get? .schemas owner = some (.schema facets properties items))
    (hshows : property.Shows place) : (addProperty owner name property model).1.Displays place := by
  have hname : owner.isHashable = true := by
    obtain ⟨given, hgiven, -⟩ := Datum.mem_of_lookup_eq_some hget
    exact Datum.isHashable_of_sameKey hgiven
  have hmodel : (addProperty owner name property model).1 =
      { model with
        components := model.components.put .schemas owner
          (withProperty name property (.schema facets properties items)) } := by
    simp [addProperty, hget, Model.register, Model.change, hfrozen, hname]
  have hproperty : (withProperty name property (.schema facets properties items)).Shows place := by
    obtain ⟨given, hgiven⟩ : ∃ given, (given, property) ∈ Datum.insertEntry name property properties :=
      Datum.exists_mem_insertEntry
    exact hshows.schema_property hgiven
  obtain ⟨given, hgiven⟩ : ∃ given, (given, withProperty name property (.schema facets properties items)) ∈
      Datum.insertEntry owner (withProperty name property (.schema facets properties items))
        (model.components.entries .schemas) := Datum.exists_mem_insertEntry
  rw [hmodel]
  refine ⟨.component .schemas, (.component Collection.schemas.name given, _),
    List.mem_map.mpr ⟨(given, _), ?_, rfl⟩, hproperty⟩
  rw [Components.entries_put, if_pos rfl]
  exact hgiven

theorem covered_of_yields_fieldProperty (htracked : context.Tracked) (hnode : node.tag = .text "Property")
    (h : Yields (fieldProperty unit symbol node) context () after)
    (hquiet : after.reported ≤ context.reported) : Covered unit node after.model.Displays := by
  simp only [fieldProperty, yields_bind_iff, yields_ite_iff, not_yields_refuse,
    yields_look_iff, yields_get_iff, and_assoc, exists_and_left, exists_eq_left, exists_const, false_and,
    and_false, false_or] at h
  obtain ⟨view, between, henter, -, _, -, -, h⟩ := h
  split at h
  · next facets properties items hget =>
    simp only [yields_bind_iff, yields_ite_iff, not_yields_refuse, yields_look_iff, yields_alter_iff,
      and_assoc, exists_and_left, exists_eq_left, exists_const, false_and, and_false, false_or] at h
    obtain ⟨given, hgiven, -, hnew, part, middle, hpart, property, last, hproperty, rfl⟩ := h
    have hentered := (Reads.enter unit node).reported_le henter
    have hread := (reads_viewedSchema unit view).reported_le hpart
    have hinferred := (reads_withInferredType _ _).reported_le hproperty
    rw [Context.reported_change] at hquiet
    obtain ⟨rfl, hwarnings, rfl⟩ := warnings_of_yields_enter henter (by omega)
    have hschema : IsSchema unit node := by
      refine ⟨?_, fun _ => View.untagged_of_text hgiven⟩
      exact Datum.isAmong_iff.mpr ⟨_, by decide, hnode⟩
    have hcovered := tells_viewedSchema hschema hwarnings _ part middle hpart (by omega)
    obtain ⟨_, -, rfl⟩ := (reads_viewedSchema _ _).warns (yields_iff_ends.mp hpart)
    obtain ⟨_, -, hlast⟩ := (reads_withInferredType _ _).warns (yields_iff_ends.mp hproperty)
    -- Reading a property changes nothing in the model to which it is added.
    have hmodel : last.model = between.model := by rw [hlast, Context.warn_model, Context.warn_model]
    refine hcovered.mono fun place hplace => ?_
    have hshows := shows_of_yields_withInferredType hproperty hplace
    have hfrozen : last.model.frozen = false := hmodel ▸ htracked.unfrozen
    exact displays_addProperty hfrozen (hmodel ▸ hget) hshows
  · exact absurd h not_yields_refuse

end Handlers

namespace Placed

variable {placed : Placed} {before after : Context}

theorem covered_of_yields_declare (htracked : before.Tracked) (h : Yields (declare placed) before () after)
    (hquiet : after.reported ≤ before.reported) :
    Covered placed.unit placed.node after.model.Displays := by
  simp only [declare, yields_bind_iff, yields_look_iff, and_assoc, exists_and_left, exists_eq_left] at h
  obtain ⟨_, -, h⟩ := h
  split at h
  case h_2 => exact absurd h not_yields_throw
  next handler hfound =>
  obtain ⟨tag, htext, hhandler⟩ := Option.bind_eq_some_iff.mp hfound
  have hnode : placed.node.tag = .text tag := by
    cases htag : placed.node.tag <;> simp_all [Datum.text?]
  unfold handler? at hhandler
  split at hhandler
  case h_10 =>
    split_ifs at hhandler with hmethod hparameter
    · cases hhandler
      exact covered_of_yields_operation htracked (by simpa using hmethod) hnode h hquiet
    · cases hhandler
      have htag : placed.node.tag.isAmong parameterTags = true :=
        Datum.isAmong_iff.mpr ⟨tag, by simpa using hparameter, hnode⟩
      exact covered_of_yields_parameterComponent htracked htag h hquiet
  all_goals cases hhandler
  case h_1 => exact covered_of_yields_info hnode h hquiet
  case h_2 => exact covered_of_yields_contact hnode h hquiet
  case h_3 => exact covered_of_yields_license hnode h hquiet
  case h_4 => exact covered_of_yields_server hnode h hquiet
  case h_5 => exact covered_of_yields_apiTag hnode h hquiet
  case h_6 => exact covered_of_yields_schemaComponent htracked hnode h hquiet
  case h_7 => exact covered_of_yields_requestBodyComponent htracked hnode h hquiet
  case h_8 => exact covered_of_yields_responseComponent htracked hnode h hquiet
  case h_9 => exact covered_of_yields_securitySchemeComponent hnode h hquiet

theorem covered_of_yields_step (htracked : before.Tracked) (h : Yields placed.step before () after)
    (hquiet : after.reported ≤ before.reported) :
    Covered placed.unit placed.node after.model.Displays := by
  cases hproperty : placed.isProperty with
  | true =>
      rw [step_of_isProperty hproperty] at h
      exact covered_of_yields_fieldProperty htracked (Datum.isText_iff.mp hproperty) h hquiet
  | false =>
      rw [step_of_not_isProperty hproperty] at h
      exact covered_of_yields_declare htracked h hquiet

/-- Annotations that are not counted take no diagnostic back. -/
theorem grows_declare (hkind : placed.kind? = none) : Grows (declare placed) := by
  refine (Grows.of_reads (Reads.look _)).bind fun _ => ?_
  split
  case h_2 => exact .of_reads (Reads.throw _)
  next handler hfound =>
  obtain ⟨tag, htext, hhandler⟩ := Option.bind_eq_some_iff.mp hfound
  have htagKind : kindOf? tag = none := by
    rw [← hkind, kind?, htext]
    rfl
  unfold handler? at hhandler
  split at hhandler
  case h_1 =>
    cases hhandler
    exact grows_info
  case h_2 =>
    cases hhandler
    exact grows_contact
  case h_3 =>
    cases hhandler
    exact grows_license
  case h_10 =>
    split_ifs at hhandler with hmethod hparameter
    · rw [kindOf?_of_methodTags (by simpa using hmethod)] at htagKind
      cases htagKind
    · rw [kindOf?_of_parameterTags (by simpa using hparameter)] at htagKind
      cases htagKind
  all_goals cases htagKind

end Placed

namespace Fold

variable {fold : Fold}

theorem reported_le (fold : Fold) : fold.before.reported ≤ fold.after.reported := by
  have hmore {warnings : List Diagnostic} {before after : Context}
      (h : after.diagnostics = before.diagnostics ++ warnings) : before.reported ≤ after.reported := by
    rw [Context.reported, Context.reported, h, List.length_append]
    omega
  rcases fold.inversion with ⟨_, _, -, -, hdeclares⟩ | ⟨-, hextends⟩ | ⟨fault, between, hnoted, hafter⟩ |
    ⟨hkind, hproperty, -⟩
  · obtain ⟨_, -, hdiagnostics⟩ := hdeclares.diagnostics
    exact hmore hdiagnostics
  · obtain ⟨_, -, hdiagnostics⟩ := hextends.diagnostics
    exact hmore hdiagnostics
  · obtain ⟨_, -, hdiagnostics⟩ := hnoted.diagnostics
    refine (hmore hdiagnostics).trans ?_
    rw [hafter, Context.reported_warn]
    omega
  · have hfolds := fold.folds
    rw [Placed.step_of_not_isProperty hproperty] at hfolds
    exact (Placed.grows_declare hkind fold.before.reported).of_guarded Grows.warn (Nat.le_refl _) hfolds

/-- An annotation of which nothing is reported comes to its end. -/
theorem yields_of_silent (hquiet : fold.after.reported ≤ fold.before.reported) :
    Yields fold.placed.step fold.before () fold.after := by
  rcases guarded_eq_ok_iff.mp fold.folds with hyields | ⟨fault, between, hends, hafter⟩
  · exact hyields
  · have hbetween : ∃ warnings, between.diagnostics = fold.before.diagnostics ++ warnings := by
      by_cases htag : fold.placed.node.tag = .text "Info"
      · obtain ⟨_, hnoted⟩ := Placed.spares_step_info htag fold.before fault between
          (Context.Noted.refl fold.before).informed hends
        obtain ⟨warnings, -, hdiagnostics⟩ := hnoted.diagnostics
        exact ⟨warnings, hdiagnostics⟩
      · have hnoted := Placed.spares_step htag fold.before fault between (.refl fold.before) hends
        obtain ⟨warnings, -, hdiagnostics⟩ := hnoted.diagnostics
        exact ⟨warnings, hdiagnostics⟩
    obtain ⟨warnings, hdiagnostics⟩ := hbetween
    rw [hafter, Context.reported_warn, Context.reported, hdiagnostics, List.length_append,
      List.length_singleton, Context.reported] at hquiet
    omega

/-- An annotation of which nothing is reported displays all that is heeded in it. -/
theorem covered (htracked : fold.before.Tracked) (hquiet : fold.after.reported ≤ fold.before.reported) :
    Covered fold.placed.unit fold.placed.node fold.after.model.Displays :=
  Placed.covered_of_yields_step htracked (fold.yields_of_silent hquiet) hquiet

end Fold

/-- What a part shows, it shows in its later forms. -/
theorem Grown.shows {kind : EntryKind} {part later : Part} {place : Location} (h : Grown kind part later)
    (hshows : kind.Shows place part) : kind.Shows place later := by
  induction h with
  | refl => exact hshows
  | tail _ hstep ih =>
      obtain ⟨rfl, hgains⟩ := hstep
      exact hgains.shows ih

namespace Folds

variable {start last : Context} {folds : List Fold}

theorem reported_le (h : Folds start folds last) :
    start.reported ≤ last.reported ∧
      ∀ fold ∈ folds, start.reported ≤ fold.before.reported ∧ fold.after.reported ≤ last.reported := by
  induction h with
  | nil => simp
  | @cons first rest last _ ih =>
      have hfirst := first.reported_le
      refine ⟨by omega, List.forall_mem_cons.mpr ⟨⟨Nat.le_refl _, ih.1⟩, fun fold hfold => ?_⟩⟩
      have hlater := ih.2 fold hfold
      omega

/-- What an annotation displays is displayed in the end. -/
theorem displays_of_mem (h : Folds start folds last) (houtcomes : ∀ fold ∈ folds, fold.Outcome)
    {fold : Fold} (hfold : fold ∈ folds) {place : Location} (hplace : fold.after.model.Displays place) :
    last.model.Displays place := by
  obtain ⟨kind, entry, hentry, hshows⟩ := hplace
  obtain ⟨part, hpart, hgrown⟩ := h.kept_of_mem houtcomes hfold kind hentry
  exact ⟨kind, _, hpart, hgrown.shows hshows⟩

end Folds

/-- The walk of a model that is built from units meets no obstacle. -/
theorem exists_parts_of_build {units : List AnnotatedUnit} {context : Context}
    (h : build units = .ok context) : ∃ parts, context.model.parts = .ok parts := by
  have hleaves : ∀ unit ∈ units, unit.Leaves Terms.any.leaf :=
    fun unit _ => unit.leaves_of_forall _ fun _ _ => trivial
  have hwalk := (sound_of_build (fun _ _ hfresh => hfresh) hleaves h).fits.all_inForm
  refine Result.mapM_ok_of_forall fun step hstep => ?_
  obtain ⟨path, part, rfl, -⟩ := hwalk step hstep
  exact ⟨(path, part), rfl⟩

/-- If nothing is reported of a document, then its walk comes to every annotation that is heeded in
another one, at any depth, and describes a part. -/
theorem build_shows {units : List AnnotatedUnit} {context : Context} (h : build units = .ok context)
    (hsilent : context.diagnostics = []) {placed : Placed} (hplaced : placed ∈ placedNodes units)
    {inner : Node} (hinner : TransGen Node.Heeds placed.node inner) (hpart : inner.isPart = true) :
    ∃ parts, context.model.parts = .ok parts ∧
      ∃ found ∈ parts, found.2.place = some (placeOf placed.unit inner) := by
  obtain ⟨declared, between, properties, ⟨hdeclared, hdeclaredNodes⟩, ⟨hproperties, hpropertyNodes⟩,
    haccounts⟩ := build_accounts h
  have hall : Folds {} (declared ++ properties) context := hdeclared.append hproperties
  -- Properties of fields are folded behind everything else, but each annotation is folded.
  obtain ⟨fold, hfold, rfl⟩ : ∃ fold ∈ declared ++ properties, fold.placed = placed := by
    refine List.mem_map.mp ?_
    rw [List.map_append, hdeclaredNodes, hpropertyNodes, List.mem_append, List.mem_filter,
      List.mem_filter]
    cases hproperty : placed.isProperty <;> simp [hplaced]
  have htracked := (hall.tracked Context.tracked_default).2 fold hfold
  -- Diagnostics are never taken back, so there is none at this annotation either.
  have hquiet : fold.after.reported ≤ fold.before.reported := by
    have hlast := (hall.reported_le.2 fold hfold).2
    have hnone : context.reported = 0 := by rw [Context.reported, hsilent, List.length_nil]
    omega
  have hplace := fold.covered htracked hquiet inner hinner.to_reflTransGen hpart
  obtain ⟨path, part, hmem, hshown⟩ := (hall.displays_of_mem haccounts.outcomes hfold hplace).walk
  obtain ⟨parts, hparts⟩ := exists_parts_of_build h
  obtain ⟨found, hfound, heq⟩ := Result.ok_of_mapM_eq_ok hparts hmem
  obtain rfl := Except.ok.inj heq
  exact ⟨parts, hparts, (path, part), hfound, hshown⟩

/-- The items of a property that stands in an attribute of a schema. -/
theorem build_shows_items :
    let items : Node := ⟨.text "Items", [(.text "type", .string "string")], [], 3, 8⟩
    let property : Node := ⟨.text "Property", [(.text "property", .string "tags")], [items], 2, 6⟩
    let schema : Node :=
      ⟨.text "Schema", [(.text "schema", .string "Pet"), (.text "properties", .array [.tag property])], [],
        1, 4⟩
    let unit : AnnotatedUnit :=
      { identity := "pet.php", fingerprint := "", blocks := [⟨.ofFile "pet.php", [schema]⟩] }
    ∃ context, build [unit] = .ok context ∧ context.diagnostics = [] ∧
      ∃ parts, context.model.parts = .ok parts ∧
        ∃ found ∈ parts, found.2.place = some (placeOf "pet.php" items) := by
  intro items property schema unit
  have hbuild : ∃ context, build [unit] = .ok context ∧ context.diagnostics = [] := by
    simp only [build, placedNodes, List.mergeSort_singleton]
    exact ⟨_, rfl, rfl⟩
  obtain ⟨context, hbuild, hsilent⟩ := hbuild
  have hplaced : (⟨"pet.php", .ofFile "pet.php", schema⟩ : Placed) ∈ placedNodes [unit] := by
    simp [placedNodes, unit]
  have hproperty : schema.Heeds property := by
    refine ⟨.attr (List.mem_cons_of_mem _ (List.mem_singleton_self _))
      (.item (List.mem_singleton_self _) (.tag property)), ?_⟩
    rintro (⟨htag, -⟩ | ⟨href, -, -⟩ | ⟨htag, -⟩ | ⟨htag, hname, hentry, hholds⟩ | ⟨hentry, hfirst, hholds⟩)
    · exact absurd htag (by decide)
    · exact absurd href (by decide)
    · exact absurd (Datum.text.inj htag) (by decide)
    · obtain rfl := Datum.text.inj htag
      obtain rfl := List.mem_singleton.mp hname
      simp only [schema, List.mem_cons, List.not_mem_nil, Prod.mk.injEq, Datum.text.injEq, or_false] at hentry
      obtain ⟨-, rfl⟩ | ⟨hother, -⟩ := hentry
      · cases hholds
      · exact absurd hother (by decide)
    · simp only [schema, List.mem_cons, List.not_mem_nil, Prod.mk.injEq, Datum.text.injEq, or_false] at hentry
      obtain ⟨rfl, rfl⟩ | ⟨rfl, rfl⟩ := hentry
      · cases hholds
      · exact hfirst rfl
  have hitems : property.Heeds items := by
    refine ⟨.child (List.mem_singleton_self _), ?_⟩
    rintro (⟨htag, -⟩ | ⟨href, -, -⟩ | ⟨htag, -⟩ | ⟨htag, hname, hentry, hholds⟩ | ⟨hentry, hfirst, hholds⟩)
    · exact absurd htag (by decide)
    · exact absurd href (by decide)
    · exact absurd (Datum.text.inj htag) (by decide)
    · obtain ⟨-, rfl⟩ := Prod.mk.inj (List.mem_singleton.mp hentry)
      cases hholds
    · obtain ⟨-, rfl⟩ := Prod.mk.inj (List.mem_singleton.mp hentry)
      cases hholds
  exact ⟨context, hbuild, hsilent,
    build_shows hbuild hsilent hplaced (.tail (.single hproperty) hitems) (by decide)⟩

set_option maxRecDepth 4000 in
/-- The second schema of a media type is passed over, and nothing is reported of it. -/
theorem build_hides_further :
    let first : Node := ⟨.text "Schema", [(.text "type", .string "string")], [], 1, 72⟩
    let second : Node := ⟨.text "Schema", [(.text "type", .string "integer")], [], 1, 96⟩
    let media : Node := ⟨.text "MediaType", [(.text "mediaType", .string "a/b")], [first, second], 1, 44⟩
    let response : Node := ⟨.text "Response", [(.text "response", .number (.int 200))], [media], 1, 20⟩
    let operation : Node := ⟨.text "Get", [(.text "path", .string "/a")], [response], 1, 4⟩
    let method : Symbol :=
      { kind := .method, name := .text "list", qualifiedName := .text "Api.list", parent := .text "Api" }
    let unit : AnnotatedUnit :=
      { identity := "a.php", fingerprint := "", blocks := [⟨method, [operation]⟩] }
    ([operation, response, media, first, second].map fun node => (node.line, node.column)).Nodup ∧
      TransGen Node.Holds operation second ∧ second.isPart = true ∧
      ∃ context parts, build [unit] = .ok context ∧ context.diagnostics = [] ∧
        context.model.parts = .ok parts ∧
          ∀ found ∈ parts, found.2.place ≠ some (placeOf "a.php" second) := by
  intro first second media response operation method unit
  have hresponse : operation.Holds response := .child (List.mem_singleton_self _)
  have hmedia : response.Holds media := .child (List.mem_singleton_self _)
  have hsecond : media.Holds second := .child (List.mem_cons_of_mem _ (List.mem_singleton_self _))
  refine ⟨by decide, .tail (.tail (.single hresponse) hmedia) hsecond, by decide, ?_⟩
  simp only [build, placedNodes, List.mergeSort_singleton]
  refine ⟨_, _, rfl, rfl, rfl, ?_⟩
  decide

end DocCompiler.Build
