import DocCompiler.Build.Declaration
import DocCompiler.Proofs.Build.Fragment
import DocCompiler.Proofs.Build.Reading
import DocCompiler.Proofs.Document.Change

/-!
What is declared keeps the model in form, whether it ends in a fault or not. Servers with one address
are added once.
-/

namespace DocCompiler

/-- The addresses of servers in order. -/
def Model.serverUrls (model : Model) : List String :=
  model.servers.filterMap fun server => server.url?.map Datum.display

namespace Build

open Annotation

/-- What building keeps: the model is in form, its servers have distinct addresses, each of which is
claimed, and what was reported stays reported. -/
structure Context.Sound (terms : Terms) (reported : List Diagnostic) (context : Context) : Prop where
  fits : context.model.Fits terms
  claimed : ∀ url ∈ context.model.serverUrls, ∃ entry ∈ context.origins, entry.1 = .server url
  distinct : context.model.serverUrls.Nodup
  reports : reported ⊆ context.diagnostics

/-- A context after something was claimed. -/
def Context.claim (context : Context) (key : Claim) (place : Location) : Context :=
  { context with origins := context.origins ++ [(key, place)] }

/-- A context after a change of its model. -/
def Context.change (context : Context) (change : Model → Model × Option ModelError) : Context :=
  { context with model := (change context.model).1 }

/-- A context in which the schema of a type is kept in mind. -/
def Context.remember (context : Context) (unit : String) (type name : Datum) : Context :=
  { context with
    typeSchemas := ((unit, type), name) ::
      context.typeSchemas.filter fun entry => !(entry.1.1 == unit && entry.1.2.sameKey type) }

theorem yields_claim_iff {view : View} {key : Claim} {value : Unit} {context after : Context} :
    Yields (claim view key) context value after ↔
      (∀ entry ∈ context.origins, entry.1.same key = false) ∧
        after = context.claim key view.place := by
  unfold claim
  rw [yields_get_bind_iff]
  split
  · rename_i entry place hfound
    have hmem := List.mem_of_find?_eq_some hfound
    have hsame := List.find?_some hfound
    simp only [not_yields_refuse, false_iff, not_and]
    intro hnone
    exact absurd hsame (by simpa using hnone _ hmem)
  · rename_i hnone
    rw [yields_modify_iff]
    simp only [List.find?_eq_none, Bool.not_eq_true] at hnone
    exact ⟨fun h => ⟨hnone, h⟩, And.right⟩

@[simp] theorem yields_alter_iff {change : Model → Model × Option ModelError} {value : Unit}
    {context after : Context} :
    Yields (alter change) context value after ↔ after = context.change change :=
  yields_modify_iff

theorem yields_requireGlobal_iff {view : View} {symbol : Symbol} {value : Unit}
    {context after : Context} :
    Yields (requireGlobal view symbol) context value after ↔
      ¬ (symbol.kind = .method ∨ symbol.kind = .field) ∧ after = context := by
  simp [requireGlobal]

theorem yields_required_iff {view : View} {name : String} {value : Datum} {context after : Context} :
    Yields (required view name) context value after ↔
      view.text name = .ok value ∧ value.isNull = false ∧ after = context := by
  simp only [required, yields_bind_iff, yields_look_iff, yields_ite_iff, not_yields_refuse, and_false,
    false_or, yields_pure_iff]
  constructor
  · rintro ⟨text, _, ⟨htext, rfl⟩, hnull, rfl, rfl⟩
    exact ⟨htext, by simpa using hnull, rfl⟩
  · rintro ⟨htext, hnull, rfl⟩
    exact ⟨value, _, ⟨htext, rfl⟩, by simpa using hnull, rfl, rfl⟩

theorem yields_componentName_iff {view : View} {attr : String} {name : Datum}
    {context after : Context} :
    Yields (componentName view attr) context name after ↔
      view.text attr = .ok name ∧ name ≠ .null ∧ (∀ marker, name ≠ .unresolved marker) ∧
        after = context := by
  simp only [componentName, yields_bind_iff, yields_look_iff]
  constructor
  · rintro ⟨given, _, ⟨hgiven, rfl⟩, hname⟩
    split at hname
    · exact absurd hname not_yields_refuse
    · exact absurd hname not_yields_refuse
    · next hnull hmarker =>
      obtain ⟨rfl, rfl⟩ := yields_pure_iff.mp hname
      exact ⟨hgiven, hnull, hmarker, rfl⟩
  · rintro ⟨hname, hnull, hmarker, rfl⟩
    refine ⟨name, _, ⟨hname, rfl⟩, ?_⟩
    split
    · exact absurd rfl hnull
    · exact absurd rfl (hmarker _)
    · exact yields_pure_iff.mpr ⟨rfl, rfl⟩

theorem requireHashable_eq_ok_iff {value : Datum} {found : Unit} :
    requireHashable value = .ok found ↔ value.isHashable = true := by
  simp only [requireHashable]
  by_cases h : value.isHashable = true <;> simp [h]

theorem yields_claimComponent_iff {view : View} {collection : String} {name : Datum} {value : Unit}
    {context after : Context} :
    Yields (claimComponent view collection name) context value after ↔
      name.isHashable = true ∧
        (∀ entry ∈ context.origins, entry.1.same (.component collection name) = false) ∧
          after = context.claim (.component collection name) view.place := by
  simp only [claimComponent, yields_bind_iff, yields_look_iff, requireHashable_eq_ok_iff,
    yields_claim_iff, and_assoc, exists_and_left, exists_eq_left, exists_const]

theorem yields_rememberSchema_iff {unit : String} {symbol : Symbol} {name : Datum} {value : Unit}
    {context after : Context} :
    Yields (rememberSchema unit symbol name) context value after ↔
      symbol.name.isHashable = true ∧ after = context.remember unit symbol.name name := by
  simp only [rememberSchema, yields_bind_iff, yields_look_iff, requireHashable_eq_ok_iff,
    yields_modify_iff, and_assoc, exists_and_left, exists_eq_left, exists_const, Context.remember]

theorem keeps_claim {inv : Context → Prop} {view : View} {key : Claim}
    (h : ∀ context, inv context → inv (context.claim key view.place)) :
    Keeps inv (claim view key) := by
  refine Keeps.get_bind fun context hinv => ?_
  split
  · exact Keeps.refuse _ _
  · exact Keeps.alter h

namespace Context.Sound

variable {terms : Terms} {reported : List Diagnostic} {context : Context}

theorem warn (h : context.Sound terms reported) (warnings : List Diagnostic) :
    (context.warn warnings).Sound terms reported :=
  ⟨h.fits, h.claimed, h.distinct, fun _ hreported => List.mem_append_left _ (h.reports hreported)⟩

theorem claim (h : context.Sound terms reported) (key : Claim) (place : Location) :
    (context.claim key place).Sound terms reported where
  fits := h.fits
  claimed url hurl := by
    obtain ⟨entry, hentry, hkey⟩ := h.claimed url hurl
    exact ⟨entry, List.mem_append_left _ hentry, hkey⟩
  distinct := h.distinct
  reports := h.reports

/-- A change that leaves the servers alone. -/
theorem change (h : context.Sound terms reported) {change : Model → Model × Option ModelError}
    (hfits : (change context.model).1.Fits terms)
    (hservers : (change context.model).1.servers = context.model.servers) :
    (context.change change).Sound terms reported := by
  have hurls : (change context.model).1.serverUrls = context.model.serverUrls := by
    rw [Model.serverUrls, Model.serverUrls, hservers]
  refine ⟨hfits, ?_, ?_, h.reports⟩
  · rw [Context.change, hurls]
    exact h.claimed
  · rw [Context.change, hurls]
    exact h.distinct

end Context.Sound

section Keeping

variable {terms : Terms} {reported : List Diagnostic}

theorem keeps_sound_claim (view : View) (key : Claim) :
    Keeps (Context.Sound terms reported) (claim view key) :=
  keeps_claim fun _ h => h.claim key view.place

theorem keeps_sound_alter {change : Model → Model × Option ModelError}
    (hfits : ∀ model, model.Fits terms → (change model).1.Fits terms)
    (hservers : ∀ model, (change model).1.servers = model.servers) :
    Keeps (Context.Sound terms reported) (alter change) :=
  Keeps.alter fun _ h => h.change (hfits _ h.fits) (hservers _)

theorem keeps_sound_of_reads {α : Type} {step : Step α} (h : Reads step) :
    Keeps (Context.Sound terms reported) step :=
  h.keeps fun _ warnings hsound => hsound.warn warnings

theorem servers_change {model : Model} {changed : Except ModelError Model}
    (h : ∀ found, changed = .ok found → found.servers = model.servers) :
    (model.change changed).1.servers = model.servers := by
  unfold Model.change
  split
  · rfl
  · split
    · exact h _ rfl
    · rfl

theorem servers_register (model : Model) (collection : Collection) (name : Datum) (part : Part) :
    (model.register collection name part).1.servers = model.servers := by
  refine servers_change fun found hfound => ?_
  split at hfound
  · obtain rfl := Except.ok.inj hfound
    rfl
  · cases hfound

theorem servers_addOperation (model : Model) (part : Part) :
    (model.addOperation part).1.servers = model.servers := by
  unfold Model.addOperation
  split
  · exact servers_change fun found hfound => by cases hfound
  · dsimp only
    split_ifs
    · exact servers_change fun found hfound => by
        obtain rfl := Except.ok.inj hfound
        rfl
    · rfl
    · rfl

theorem servers_registerScheme (model : Model) (name : Datum) (part : Part) :
    (model.registerScheme name part).1.servers = model.servers := by
  refine servers_change fun found hfound => ?_
  split at hfound
  · obtain rfl := Except.ok.inj hfound
    rfl
  · cases hfound

theorem keeps_requireGlobal {inv : Context → Prop} (view : View) (symbol : Symbol) :
    Keeps inv (requireGlobal view symbol) :=
  Keeps.ite (fun _ => Keeps.refuse _ _) fun _ => Keeps.pure _

theorem keeps_enterGlobal {inv : Context → Prop}
    (hwarn : ∀ context warnings, inv context → inv (context.warn warnings))
    (hclaim : ∀ context key place, inv context → inv (context.claim key place)) (unit : String)
    (symbol : Symbol) (node : Node) (tag : String) : Keeps inv (enterGlobal unit symbol node tag) := by
  refine Keeps.enter_bind hwarn ?_
  refine (keeps_requireGlobal _ symbol).bind fun _ _ _ _ _ => ?_
  exact (keeps_claim fun _ => hclaim _ _ _).bind fun _ _ _ _ _ => Keeps.pure _

theorem keeps_sound_enterGlobal (unit : String) (symbol : Symbol) (node : Node) (tag : String) :
    Keeps (Context.Sound terms reported) (enterGlobal unit symbol node tag) :=
  keeps_enterGlobal (fun _ _ h => h.warn _) (fun _ _ _ h => h.claim _ _) unit symbol node tag

theorem eq_of_yields_enterGlobal {unit : String} {symbol : Symbol} {node : Node} {tag : String}
    {view : View} {context after : Context}
    (h : Yields (enterGlobal unit symbol node tag) context view after) : view = View.of unit node := by
  simp only [enterGlobal, yields_bind_iff, yields_pure_iff, yields_enter_iff] at h
  obtain ⟨_, _, ⟨rfl, -⟩, -, -, -, -, -, -, rfl, -⟩ := h
  rfl

theorem keeps_contact {unit : String} {symbol : Symbol} {node : Node}
    (hleaves : node.Leaves terms.leaf) :
    Keeps (Context.Sound terms reported) (contact unit symbol node) := by
  refine (keeps_sound_enterGlobal unit symbol node _).bind fun _ view _ _ hview => ?_
  obtain rfl := eq_of_yields_enterGlobal hview
  refine Keeps.look_bind fun name hname => Keeps.look_bind fun email hemail =>
    Keeps.look_bind fun url hurl => keeps_sound_alter ?_ ?_
  · intro model hfits
    unfold withContact
    split
    · rename_i info person conditions hinfo
      have hform := hfits.info
      rw [hinfo] at hform
      refine hfits.withInfo ⟨hform.1, fun part hpart => ?_, hform.2.2⟩
      obtain rfl : _ = part := by simpa using hpart
      exact ⟨_, rfl, View.given_of_text hleaves hname, View.given_of_text hleaves hemail,
        View.given_of_text hleaves hurl⟩
    · exact hfits
  · intro model
    unfold withContact
    split <;> rfl

theorem keeps_license {unit : String} {symbol : Symbol} {node : Node}
    (hleaves : node.Leaves terms.leaf) :
    Keeps (Context.Sound terms reported) (license unit symbol node) := by
  refine (keeps_sound_enterGlobal unit symbol node _).bind fun _ view _ _ hview => ?_
  obtain rfl := eq_of_yields_enterGlobal hview
  refine Keeps.look_bind fun name hname => Keeps.look_bind fun url hurl =>
    Keeps.look_bind fun identifier hidentifier => keeps_sound_alter ?_ ?_
  · intro model hfits
    unfold withLicense
    split
    · rename_i info person conditions hinfo
      have hform := hfits.info
      rw [hinfo] at hform
      refine hfits.withInfo ⟨hform.1, hform.2.1, fun part hpart => ?_⟩
      obtain rfl : _ = part := by simpa using hpart
      exact ⟨_, rfl, View.given_of_text hleaves hname, View.given_of_text hleaves hurl,
        View.given_of_text hleaves hidentifier⟩
    · exact hfits
  · intro model
    unfold withLicense
    split <;> rfl

theorem keeps_alterInfo {change : Info → Info}
    (h : ∀ value : Info, value.Fits terms → (change value).Fits terms) :
    Keeps (Context.Sound terms reported) (alterInfo change) := by
  refine keeps_sound_alter (fun model hfits => ?_) fun model => ?_
  · split
    · rename_i value person conditions hinfo
      have hform := hfits.info
      rw [hinfo] at hform
      exact hfits.withInfo ⟨h value hform.1, hform.2⟩
    · exact hfits
  · split <;> rfl

theorem keeps_info {unit : String} {symbol : Symbol} {node : Node}
    (hleaves : node.Leaves terms.leaf) : Keeps (Context.Sound terms reported) (info unit symbol node) := by
  refine (keeps_sound_enterGlobal unit symbol node _).bind fun _ view _ _ hview => ?_
  obtain rfl := eq_of_yields_enterGlobal hview
  refine Keeps.look_bind fun title htitle => ?_
  refine Keeps.bind (keeps_alterInfo fun value h => ?_) fun _ _ _ _ _ => ?_
  · exact { h with title := View.given_of_text hleaves htitle }
  refine Keeps.look_bind fun version hversion => ?_
  refine Keeps.bind (keeps_alterInfo fun value h => ?_) fun _ _ _ _ _ => ?_
  · exact { h with version := View.given_of_textOrNumber hleaves hversion }
  refine Keeps.look_bind fun description hdescription => ?_
  refine Keeps.bind (keeps_alterInfo fun value h => ?_) fun _ _ _ _ _ => ?_
  · exact { h with description := View.given_of_text hleaves hdescription }
  refine Keeps.look_bind fun termsOfService hterms => ?_
  refine Keeps.bind (keeps_alterInfo fun value h => ?_) fun _ _ _ _ _ => ?_
  · exact { h with termsOfService := View.given_of_text hleaves hterms }
  refine Keeps.look_bind fun contacts hcontacts => Keeps.look_bind fun licenses hlicenses =>
    Keeps.look_bind fun _ _ => ?_
  refine Keeps.bind (Keeps.forM fun child hchild => ?_) fun _ _ _ _ _ =>
    Keeps.forM fun child hchild => ?_
  · exact (keeps_contact (View.leaves_of_nested hleaves hcontacts hchild)).attempt
      fun _ _ h => h.warn _
  · exact (keeps_license (View.leaves_of_nested hleaves hlicenses hchild)).attempt
      fun _ _ h => h.warn _

theorem keeps_required {inv : Context → Prop} (view : View) (name : String) :
    Keeps inv (required view name) :=
  Keeps.look_bind fun _ _ => Keeps.ite (fun _ => Keeps.refuse _ _) fun _ => Keeps.pure _

theorem stated_of_yields_required {view : View} (hleaves : view.node.Leaves terms.leaf)
    {name : String} {value : Datum} {context after : Context}
    (h : Yields (required view name) context value after) : terms.Stated .string value := by
  obtain ⟨htext, hnull, -⟩ := yields_required_iff.mp h
  rcases View.given_of_text hleaves htext with rfl | hstated
  · simp [Datum.isNull] at hnull
  · exact hstated

theorem Context.Sound.addServer {context : Context} (h : context.Sound terms reported) {server : Server}
    (hserver : server.Fits terms) (hnew : server.url.display ∉ context.model.serverUrls)
    (hclaimed : ∃ entry ∈ context.origins, entry.1 = .server server.url.display) :
    (context.change fun model => model.addServer (.server server)).Sound terms reported := by
  have hurls : (context.model.addServer (.server server)).1.serverUrls = context.model.serverUrls ∨
      (context.model.addServer (.server server)).1.serverUrls =
        context.model.serverUrls ++ [server.url.display] := by
    unfold Model.addServer Model.change
    split
    · exact .inl rfl
    · exact .inr (by simp [Model.serverUrls, Part.url?])
  refine ⟨h.fits.addServer hserver false, ?_, ?_, h.reports⟩
  · intro url hurl
    rw [Context.change] at hurl
    rcases hurls with hold | hadded
    · exact h.claimed url (hold ▸ hurl)
    · rw [hadded, List.mem_append, List.mem_singleton] at hurl
      rcases hurl with hold | rfl
      · exact h.claimed url hold
      · exact hclaimed
  · rw [Context.change]
    rcases hurls with hold | hadded
    · exact hold ▸ h.distinct
    · rw [hadded]
      exact List.nodup_append.mpr ⟨h.distinct, by simp, by
        rintro url hurl _ hlast rfl
        exact hnew (by simpa using List.mem_singleton.mp hlast ▸ hurl)⟩

theorem keeps_server {unit : String} {symbol : Symbol} {node : Node}
    (hleaves : node.Leaves terms.leaf) : Keeps (Context.Sound terms reported) (server unit symbol node) := by
  refine Keeps.enter_bind (fun _ _ h => h.warn _) ?_
  refine (keeps_requireGlobal _ symbol).bind fun _ _ _ _ _ => ?_
  refine (keeps_required _ _).bind fun _ url _ _ hurl => ?_
  have hstated := stated_of_yields_required hleaves hurl
  intro context result after hsound hends
  rcases ends_bind_iff.mp hends with ⟨_, between, hclaim, hrest⟩ | ⟨fault, -, hclaim⟩
  · obtain ⟨hunclaimed, rfl⟩ := yields_claim_iff.mp hclaim
    rcases ends_bind_iff.mp hrest with ⟨description, _, hlook, hlast⟩ | ⟨fault, -, hlook⟩
    · obtain ⟨hdescription, rfl⟩ := yields_look_iff.mp hlook
      obtain ⟨-, rfl⟩ := ends_modify_iff.mp hlast
      refine (hsound.claim _ _).addServer ⟨hstated, View.given_of_text hleaves hdescription⟩ ?_ ?_
      · intro hurl
        obtain ⟨entry, hentry, hkey⟩ := hsound.claimed _ hurl
        simpa [hkey, Claim.same] using hunclaimed entry hentry
      · exact ⟨_, List.mem_append_right _ (List.mem_singleton_self _), rfl⟩
    · exact keeps_sound_of_reads (Reads.look _) _ _ _ (hsound.claim _ _) hlook
  · exact keeps_sound_claim _ _ _ _ _ hsound hclaim

theorem keeps_apiTag {unit : String} {symbol : Symbol} {node : Node}
    (hleaves : node.Leaves terms.leaf) : Keeps (Context.Sound terms reported) (apiTag unit symbol node) := by
  refine Keeps.enter_bind (fun _ _ h => h.warn _) ?_
  refine (keeps_requireGlobal _ symbol).bind fun _ _ _ _ _ => ?_
  refine (keeps_required _ _).bind fun _ name _ _ hname => ?_
  refine (keeps_sound_claim _ _).bind fun _ _ _ _ _ => ?_
  refine Keeps.look_bind fun description hdescription => keeps_sound_alter ?_ ?_
  · intro model hfits
    exact hfits.addTag ⟨stated_of_yields_required hleaves hname,
      View.given_of_text hleaves hdescription⟩
  · intro model
    refine servers_change fun found hfound => ?_
    obtain rfl := Except.ok.inj hfound
    rfl

theorem reads_statusResponse (unit : String) (node : Node) : Reads (statusResponse unit node) := by
  refine (Reads.enter unit node).bind fun view => (Reads.look _).bind fun status => ?_
  exact Reads.ite (Reads.refuse _ _) ((reads_response unit view).bind fun _ => Reads.pure _)

theorem reads_statusResponses (unit label : String) (nodes : List Node) (done : Registry) :
    Reads (statusResponses unit label nodes done) := by
  induction nodes generalizing done with
  | nil => exact Reads.pure _
  | cons child rest ih =>
      refine (reads_statusResponse unit child).bind fun (status, response) => ?_
      exact (Reads.look _).bind fun _ => Reads.ite (Reads.throw _) (ih _)

/-- Responses that are read come behind those read before, with statuses that are not the same. What holds of
every response that is read holds of them. -/
theorem entries_of_yields_statusResponses (holds : Datum → Part → Prop) {unit label : String}
    {nodes : List Node} {done found : Registry} {context after : Context}
    (hresponse : ∀ node ∈ nodes, ∀ context found after,
      Yields (statusResponse unit node) context found after → holds found.1 found.2)
    (hdistinct : Datum.Distinct done) (hdone : ∀ entry ∈ done, holds entry.1 entry.2)
    (h : Yields (statusResponses unit label nodes done) context found after) :
    Datum.Distinct found ∧ ∀ entry ∈ found, holds entry.1 entry.2 := by
  induction nodes generalizing done context with
  | nil =>
      obtain ⟨rfl, rfl⟩ := yields_pure_iff.mp h
      exact ⟨hdistinct, hdone⟩
  | cons child rest ih =>
      simp only [statusResponses, yields_bind_iff, yields_look_iff, yields_ite_iff, not_yields_throw,
        and_false, false_or] at h
      obtain ⟨⟨status, response⟩, _, hyields, _, _, ⟨-, rfl⟩, hnew, hrest⟩ := h
      have hkey : Datum.lookup status done = none := by simpa using hnew
      rw [Datum.insertEntry_of_lookup_eq_none hkey] at hrest
      refine ih (fun node hnode => hresponse node (by simp [hnode])) (hdistinct.append_singleton hkey) ?_
        hrest
      intro entry hentry
      rcases List.mem_append.mp hentry with hold | hlast
      · exact hdone entry hold
      · obtain rfl : entry = (status, response) := by simpa using hlast
        exact hresponse child (by simp) _ _ _ hyields

theorem lower_mem_methodOrder {tag : String} (h : tag ∈ methodTags) :
    Text.lower tag ∈ Layout.methodOrder := by
  revert tag
  decide

theorem keeps_componentName {inv : Context → Prop} (view : View) (attr : String) :
    Keeps inv (componentName view attr) := by
  refine Keeps.look_bind fun name _ => ?_
  split
  · exact Keeps.refuse _ _
  · exact Keeps.refuse _ _
  · exact Keeps.pure _

theorem leaf_of_yields_componentName {view : View} (hleaves : view.node.Leaves terms.leaf)
    {attr : String} {name : Datum} {context after : Context}
    (h : Yields (componentName view attr) context name after) : terms.leaf .string name := by
  obtain ⟨hname, hnull, hmarked, -⟩ := yields_componentName_iff.mp h
  rcases View.given_of_text hleaves hname with rfl | ⟨marker, rfl⟩ | hleaf
  · exact absurd rfl hnull
  · exact absurd rfl (hmarked marker)
  · exact hleaf

theorem keeps_schemaName {inv : Context → Prop} (view : View) (symbol : Symbol) :
    Keeps inv (schemaName view symbol) :=
  Keeps.look_bind fun _ _ => Keeps.ite (fun _ => Keeps.pure _) fun _ => keeps_componentName _ _

theorem leaf_of_yields_schemaName {view : View} (hleaves : view.node.Leaves terms.leaf)
    {symbol : Symbol} (hsymbol : terms.leaf .string symbol.name) {name : Datum}
    {context after : Context} (h : Yields (schemaName view symbol) context name after) :
    terms.leaf .string name := by
  simp only [schemaName, yields_bind_iff, yields_look_iff, yields_ite_iff, yields_pure_iff] at h
  obtain ⟨given, between, ⟨-, rfl⟩, ⟨-, rfl, -⟩ | ⟨-, hname⟩⟩ := h
  · exact hsymbol
  · exact leaf_of_yields_componentName hleaves hname

theorem keeps_rememberSchema (unit : String) (symbol : Symbol) (name : Datum) :
    Keeps (Context.Sound terms reported) (rememberSchema unit symbol name) :=
  Keeps.look_bind fun _ _ => Keeps.alter fun _ h => ⟨h.fits, h.claimed, h.distinct, h.reports⟩

theorem keeps_claimComponent {inv : Context → Prop}
    (hclaim : ∀ context key place, inv context → inv (context.claim key place)) (view : View)
    (collection : String) (name : Datum) : Keeps inv (claimComponent view collection name) :=
  Keeps.look_bind fun _ _ => keeps_claim fun _ => hclaim _ _ _

theorem isSchema_named {name : Datum} (hname : terms.leaf .string name) {part : Part}
    (h : part.IsSchema terms) : (named name part).IsSchema terms := by
  cases part with
  | schema facets properties items => exact ⟨{ h.1 with name := .inr (.inr hname) }, h.2⟩
  | _ => exact h

theorem keeps_register {collection : Collection} {name : Datum} {part : Part}
    (hname : terms.leaf .string name) (hpart : part.IsEntry terms collection) :
    Keeps (Context.Sound terms reported) (alter fun model => model.register collection name part) :=
  keeps_sound_alter (fun _ hfits => hfits.register (.inl hname) hpart)
    fun model => servers_register model collection name part

theorem reads_declaredTypeOf (symbol : Symbol) : Reads (declaredTypeOf symbol) := by
  unfold declaredTypeOf
  split
  · exact Reads.pure _
  · exact Reads.ite (Reads.giveUp _) (Reads.pure _)

theorem reads_withInferredType (symbol : Symbol) (part : Part) :
    Reads (withInferredType symbol part) := by
  unfold withInferredType
  split
  · refine Reads.ite (Reads.pure _) ?_
    exact (reads_declaredTypeOf symbol).bind fun _ => Reads.pure _
  · exact Reads.pure _

theorem keeps_securitySchemeComponent {unit : String} {symbol : Symbol} {node : Node}
    (hleaves : node.Leaves terms.leaf) :
    Keeps (Context.Sound terms reported) (securitySchemeComponent unit symbol node) := by
  refine Keeps.enter_bind (fun _ _ h => h.warn _) ?_
  refine (keeps_componentName _ _).bind fun _ component _ _ hcomponent => ?_
  refine (keeps_required _ _).bind fun _ type _ _ htype => Keeps.look_bind fun _ _ => ?_
  refine (keeps_claimComponent (fun _ _ _ h => h.claim _ _) _ _ _).bind fun _ _ _ _ _ => ?_
  refine Keeps.look_bind fun scheme hscheme => Keeps.look_bind fun bearerFormat hformat =>
    Keeps.look_bind fun location hlocation => Keeps.look_bind fun name hname =>
    Keeps.look_bind fun description hdescription => ?_
  refine keeps_sound_alter (fun model hfits => ?_) fun model => servers_registerScheme model _ _
  refine hfits.registerScheme (leaf_of_yields_componentName hleaves hcomponent) ?_
  exact
    { type := stated_of_yields_required hleaves htype
      scheme := View.given_of_text hleaves hscheme
      bearerFormat := View.given_of_text hleaves hformat
      location := View.given_of_text hleaves hlocation
      name := View.given_of_text hleaves hname
      description := View.given_of_text hleaves hdescription }

theorem isSchema_withProperty {name : Datum} (hname : terms.leaf .string name)
    {property part : Part} (hproperty : property.IsSchema terms) (h : part.IsSchema terms) :
    (withProperty name property part).IsSchema terms := by
  cases part with
  | schema facets properties items =>
      obtain ⟨hfacets, hdistinct, hproperties, hitems⟩ := h
      refine ⟨?_, hdistinct.insertEntry, ?_, hitems⟩
      · split_ifs
        · exact { hfacets with type := .inr (Terms.stated_text _) }
        · exact hfacets
      · rw [Part.areProperties_iff] at hproperties ⊢
        intro entry hentry
        rcases Datum.mem_insertEntry hentry with hold | ⟨hvalue, hkey | ⟨old, hold, heq, -⟩⟩
        · exact hproperties entry hold
        · exact ⟨hkey ▸ hname, hvalue ▸ hproperty⟩
        · exact ⟨heq ▸ (hproperties old hold).1, hvalue ▸ hproperty⟩
  | _ => exact h

theorem isSchema_of_yields_withInferredType {symbol : Symbol} {part found : Part}
    {context after : Context} (hpart : part.IsSchema terms)
    (h : Yields (withInferredType symbol part) context found after) : found.IsSchema terms := by
  unfold withInferredType at h
  split at h
  · obtain ⟨hfacets, hrest⟩ := hpart
    simp only [yields_ite_iff, yields_bind_iff, yields_pure_iff] at h
    obtain ⟨-, rfl, -⟩ | ⟨-, declared, _, -, rfl, -⟩ := h
    · exact ⟨hfacets, hrest⟩
    · refine ⟨?_, hrest⟩
      have htype : ∀ type : Option String, terms.Given .string (type.elim .null .text) := by
        intro type
        cases type with
        | none => exact Terms.given_null _
        | some name => exact .inr (Terms.stated_text _)
      split_ifs
      · exact { hfacets with type := htype _, nullable := .inr (.inr (terms.bool true)) }
      · exact { hfacets with type := htype _ }
  · obtain ⟨rfl, -⟩ := yields_pure_iff.mp h
    exact hpart

theorem keeps_addProperty {owner name : Datum} {property : Part} (hname : terms.leaf .string name)
    (hproperty : property.IsSchema terms) :
    Keeps (Context.Sound terms reported) (alter (addProperty owner name property)) := by
  refine keeps_sound_alter (fun model hfits => ?_) fun model => ?_
  · unfold addProperty
    split
    · rename_i part hfound
      refine hfits.register (.inr (by simp [hfound])) (Part.isEntry_schemas_iff.mpr ?_)
      obtain ⟨key, -, hmem⟩ := Datum.mem_of_lookup_eq_some hfound
      exact isSchema_withProperty hname hproperty
        (Part.isEntry_schemas_iff.mp (hfits.components.entries .schemas _ hmem))
    · exact hfits
  · unfold addProperty
    split
    · exact servers_register _ _ _ _
    · rfl

end Keeping

section Links

variable {terms : Terms} {reported : List Diagnostic} (hfresh : ∀ place link, Reference.Fresh place link → terms.link place link)

include hfresh

theorem isEntry_of_yields_statusResponse {unit : String} {node : Node} (hleaves : node.Leaves terms.leaf)
    {found : Datum × Part} {context after : Context}
    (h : Yields (statusResponse unit node) context found after) :
    terms.Stated .string found.1 ∧ found.2.IsEntry terms .responses := by
  simp only [statusResponse, yields_bind_iff, yields_look_iff, yields_ite_iff, yields_enter_iff,
    yields_pure_iff, not_yields_refuse, and_assoc, exists_and_left, exists_eq_left, and_false,
    false_or] at h
  obtain ⟨_, -, status, hstatus, hnull, part, _, hpart, rfl, -⟩ := h
  refine ⟨?_, isEntry_of_yields_response hfresh hleaves hpart⟩
  rcases View.given_of_textOrNumber hleaves hstatus with rfl | hstated
  · simp [Datum.isNull] at hnull
  · exact hstated

theorem keeps_operation {unit : String} {symbol : Symbol} {node : Node}
    (hleaves : node.Leaves terms.leaf) (hsymbol : terms.leaf .string symbol.qualifiedName)
    (hmethod : node.tag.display ∈ methodTags) :
    Keeps (Context.Sound terms reported) (operation unit symbol node) := by
  refine Keeps.enter_bind (fun _ _ h => h.warn _) ?_
  refine Keeps.ite (fun _ => Keeps.refuse_bind) fun _ => ?_
  refine (keeps_required _ _).bind fun _ given _ _ hgiven => ?_
  refine Keeps.look_bind fun operationId hoperationId => Keeps.look_bind fun tags htags =>
    Keeps.look_bind fun summary hsummary => Keeps.look_bind fun description hdescription =>
    Keeps.look_bind fun deprecated hdeprecated => Keeps.look_bind fun security _ =>
    Keeps.look_bind fun nodes hnodes => ?_
  refine Keeps.of_reads_bind ?_ (fun _ _ h => h.warn _) fun _ parameters _ hparameters => ?_
  · exact Reads.mapM fun child _ =>
      (Reads.enter unit child).bind fun view => reads_parameter unit view
  refine Keeps.look_bind fun bodies hbodies => Keeps.ite (fun _ => Keeps.refuse_bind) fun _ => ?_
  refine Keeps.of_reads_bind ?_ (fun _ _ h => h.warn _) fun _ body _ hbody => ?_
  · exact Reads.optionMapM fun child _ =>
      (Reads.enter unit child).bind fun view => reads_requestBody unit view
  refine Keeps.look_bind fun answers hanswers => ?_
  refine Keeps.of_reads_bind (reads_statusResponses _ _ _ _) (fun _ _ h => h.warn _)
    fun _ responses _ hresponses => ?_
  refine Keeps.look_bind fun _ _ => (keeps_sound_claim _ _).bind fun _ _ _ _ _ => ?_
  refine keeps_sound_alter (fun model hfits => ?_) fun model => ?_
  · obtain ⟨hdistinct, hentries⟩ := entries_of_yields_statusResponses
      (fun status part => terms.Stated .string status ∧ part.IsEntry terms .responses)
      (fun child hchild _ _ _ => isEntry_of_yields_statusResponse hfresh
        (View.leaves_of_nested hleaves hanswers hchild)) List.Pairwise.nil (by simp) hresponses
    have hpath : terms.Stated .string (given.text?.elim given fun route => .text (Route.normalize route)) := by
      cases htext : given.text? with
      | none => exact stated_of_yields_required hleaves hgiven
      | some route => exact Terms.stated_text _
    have hid : terms.Stated .string
        (if operationId.isTruthy then operationId else symbol.qualifiedName) := by
      split_ifs with htruthy
      · rcases View.given_of_text hleaves hoperationId with rfl | hstated
        · simp [Datum.isTruthy] at htruthy
        · exact hstated
      · exact .inr hsymbol
    refine hfits.addOperation ?_
    exact
      { operation :=
          { method := ⟨_, lower_mem_methodOrder hmethod, rfl⟩
            path := hpath
            operationId := hid
            tags := View.listed_of_texts hleaves htags
            summary := View.given_of_text hleaves hsummary
            description := View.given_of_text hleaves hdescription
            deprecated := View.given_of_flag hleaves hdeprecated }
        parameters := by
          intro part hpart
          obtain ⟨child, hchild, before, between, hyields⟩ := exists_of_yields_mapM hparameters hpart
          obtain ⟨view, _, hview, hrest⟩ := yields_bind_iff.mp hyields
          obtain ⟨rfl, -⟩ := yields_enter_iff.mp hview
          exact isEntry_of_yields_parameter hfresh (View.leaves_of_nested hleaves hnodes hchild) hrest
        body := by
          intro part hpart
          obtain ⟨child, hchild, hyields⟩ := yields_option_mapM hbody hpart
          obtain ⟨view, _, hview, hrest⟩ := yields_bind_iff.mp hyields
          obtain ⟨rfl, -⟩ := yields_enter_iff.mp hview
          exact isEntry_of_yields_requestBody hfresh
            (View.leaves_of_nested hleaves hbodies (List.mem_of_head? hchild)) hrest
        distinct := hdistinct
        statuses := fun entry hentry => (hentries entry hentry).1
        responses := fun entry hentry => (hentries entry hentry).2 }
  · exact servers_addOperation model _

theorem keeps_schemaComponent {unit : String} {symbol : Symbol} {node : Node}
    (hleaves : node.Leaves terms.leaf) (hsymbol : terms.leaf .string symbol.name) :
    Keeps (Context.Sound terms reported) (schemaComponent unit symbol node) := by
  refine Keeps.enter_bind (fun _ _ h => h.warn _) ?_
  refine Keeps.ite (fun _ => Keeps.refuse_bind) fun _ => ?_
  refine (keeps_schemaName _ symbol).bind fun _ name _ _ hyields => ?_
  have hname := leaf_of_yields_schemaName hleaves hsymbol hyields
  refine (keeps_claimComponent (fun _ _ _ h => h.claim _ _) _ _ _).bind fun _ _ _ _ _ => ?_
  refine Keeps.of_reads_bind (reads_viewedSchema _ _) (fun _ _ h => h.warn _) fun _ part _ hpart => ?_
  have hschema := isSchema_named hname (isSchema_of_yields_viewedSchema hfresh hleaves hpart)
  refine (keeps_register hname (Part.isEntry_schemas_iff.mpr hschema)).bind fun _ _ _ _ _ => ?_
  exact Keeps.ite (fun _ => keeps_rememberSchema unit symbol name) fun _ => Keeps.pure _

theorem keeps_parameterComponent {unit : String} {symbol : Symbol} {node : Node}
    (hleaves : node.Leaves terms.leaf) :
    Keeps (Context.Sound terms reported) (parameterComponent unit symbol node) := by
  refine Keeps.enter_bind (fun _ _ h => h.warn _) ?_
  refine (keeps_componentName _ _).bind fun _ name _ _ hname => ?_
  refine (keeps_claimComponent (fun _ _ _ h => h.claim _ _) _ _ _).bind fun _ _ _ _ _ => ?_
  refine Keeps.of_reads_bind (reads_parameter _ _) (fun _ _ h => h.warn _) fun _ part _ hpart => ?_
  exact keeps_register (leaf_of_yields_componentName hleaves hname)
    (isEntry_of_yields_parameter hfresh hleaves hpart)

theorem keeps_requestBodyComponent {unit : String} {symbol : Symbol} {node : Node}
    (hleaves : node.Leaves terms.leaf) :
    Keeps (Context.Sound terms reported) (requestBodyComponent unit symbol node) := by
  refine Keeps.enter_bind (fun _ _ h => h.warn _) ?_
  refine (keeps_componentName _ _).bind fun _ name _ _ hname => ?_
  refine (keeps_claimComponent (fun _ _ _ h => h.claim _ _) _ _ _).bind fun _ _ _ _ _ => ?_
  refine Keeps.of_reads_bind (reads_requestBody _ _) (fun _ _ h => h.warn _) fun _ part _ hpart => ?_
  exact keeps_register (leaf_of_yields_componentName hleaves hname)
    (isEntry_of_yields_requestBody hfresh hleaves hpart)

theorem keeps_responseComponent {unit : String} {symbol : Symbol} {node : Node}
    (hleaves : node.Leaves terms.leaf) :
    Keeps (Context.Sound terms reported) (responseComponent unit symbol node) := by
  refine Keeps.enter_bind (fun _ _ h => h.warn _) ?_
  split
  · split
    · exact Keeps.refuse _ _
    · exact Keeps.giveUp _
  · refine (keeps_componentName _ _).bind fun _ name _ _ hname => ?_
    refine (keeps_claimComponent (fun _ _ _ h => h.claim _ _) _ _ _).bind fun _ _ _ _ _ => ?_
    refine Keeps.of_reads_bind (reads_response _ _) (fun _ _ h => h.warn _) fun _ part _ hpart => ?_
    exact keeps_register (leaf_of_yields_componentName hleaves hname)
      (isEntry_of_yields_response hfresh hleaves hpart)


theorem keeps_fieldProperty {unit : String} {symbol : Symbol} {node : Node}
    (hleaves : node.Leaves terms.leaf) (hsymbol : terms.leaf .string symbol.name) :
    Keeps (Context.Sound terms reported) (fieldProperty unit symbol node) := by
  refine Keeps.enter_bind (fun _ _ h => h.warn _) ?_
  refine Keeps.ite (fun _ => Keeps.refuse_bind) fun _ => Keeps.look_bind fun _ _ => ?_
  refine Keeps.get_bind fun context hsound => ?_
  refine Keeps.ite (fun _ => Keeps.refuse_bind) fun _ => ?_
  dsimp only
  split
  · refine Keeps.look_bind fun given hgiven => ?_
    refine Keeps.ite (fun _ => Keeps.refuse_bind) fun htext => ?_
    refine Keeps.ite (fun _ => Keeps.refuse_bind) fun _ => ?_
    refine Keeps.of_reads_bind (reads_viewedSchema _ _) (fun _ _ h => h.warn _)
      fun _ part _ hpart => ?_
    refine Keeps.of_reads_bind (reads_withInferredType _ _) (fun _ _ h => h.warn _)
      fun _ property _ hproperty => ?_
    refine keeps_addProperty ?_ (isSchema_of_yields_withInferredType
      (isSchema_of_yields_viewedSchema hfresh hleaves hpart) hproperty)
    split_ifs at htext ⊢ with htruthy
    · rcases View.given_of_text hleaves hgiven with rfl | ⟨marker, rfl⟩ | hleaf
      · simp [Datum.isTruthy] at htruthy
      · simp [Datum.codes?] at htext
      · exact hleaf
    · exact hsymbol
  · exact Keeps.refuse _ _

end Links

end Build

end DocCompiler
