import DocCompiler.Build.Document
import DocCompiler.Proofs.Build.Declaration

/-!
What an annotation leaves behind that ends in a fault. All declarations but the general information
change the model last of all, when nothing can go wrong any more.
-/

namespace DocCompiler

/-- A model whose general information is changed. -/
def Model.inform (change : Info → Info) (model : Model) : Model × Option ModelError :=
  match model.info with
  | .info info contact license => ({ model with info := .info (change info) contact license }, none)
  | _ => (model, none)

theorem Model.inform_id (model : Model) : (model.inform id).1 = model := by
  unfold inform
  split
  · next info contact license hinfo =>
    rw [id_eq, ← hinfo]
  · rfl

theorem Model.inform_inform (model : Model) (first second : Info → Info) :
    ((model.inform first).1.inform second).1 = (model.inform (second ∘ first)).1 := by
  cases h : model.info <;> simp [inform, h]

namespace Build

open Annotation

/-- What an annotation does to the document: a property of a field joins the schema of its type, and
all else is declared. -/
def Placed.step (placed : Placed) : Step Unit :=
  if placed.isProperty then fieldProperty placed.unit placed.symbol placed.node else declare placed

/-- A context that differs from an earlier one in warnings and claims at most. -/
structure Context.Noted (before after : Context) : Prop where
  model : after.model = before.model
  typeSchemas : after.typeSchemas = before.typeSchemas
  origins : before.origins <+: after.origins
  diagnostics : ∃ warnings, OnlyWarnings warnings ∧ after.diagnostics = before.diagnostics ++ warnings

/-- A context that differs from an earlier one in warnings, claims and the texts of the general
information at most. -/
def Context.Informed (before after : Context) : Prop :=
  ∃ change : Info → Info, (before.change (Model.inform change)).Noted after

/-- If a step ends in a fault, a property of contexts is kept. -/
def Spares {α : Type} (inv : Context → Prop) (step : Step α) : Prop :=
  ∀ context fault after, inv context → Ends step context (.error fault) after → inv after

/-- A step that ends in no fault. -/
def Unfailing {α : Type} (step : Step α) : Prop :=
  ∀ context fault after, ¬ Ends step context (.error fault) after

/-- A step that only looks, warns and claims. -/
def Notes {α : Type} (step : Step α) : Prop :=
  ∀ start : Context, Keeps start.Noted step

namespace Context.Noted

variable {before after last : Context}

theorem refl (context : Context) : context.Noted context :=
  ⟨rfl, rfl, List.prefix_rfl, [], onlyWarnings_nil, by simp⟩

theorem warn (h : before.Noted after) {warnings : List Diagnostic} (hwarnings : OnlyWarnings warnings) :
    before.Noted (after.warn warnings) := by
  obtain ⟨first, hfirst, hdiagnostics⟩ := h.diagnostics
  refine ⟨h.model, h.typeSchemas, h.origins, first ++ warnings, hfirst.append hwarnings, ?_⟩
  rw [Context.warn, hdiagnostics, List.append_assoc]

theorem claim (h : before.Noted after) (key : Claim) (place : Location) :
    before.Noted (after.claim key place) :=
  ⟨h.model, h.typeSchemas, h.origins.trans (List.prefix_append _ _), h.diagnostics⟩

end Context.Noted

variable {α β : Type}

namespace Notes

variable {step : Step α} {next : α → Step β}

theorem of_reads (h : Reads step) : Notes step := by
  intro start context result after hnoted hends
  obtain ⟨warnings, hwarnings, rfl⟩ := h.warns hends
  exact hnoted.warn hwarnings

theorem claim (view : View) (key : Claim) : Notes (Build.claim view key) :=
  fun _ => keeps_claim fun _ h => h.claim key view.place

theorem bind (h : Notes step) (hnext : ∀ value, Notes (next value)) : Notes (step >>= next) :=
  fun start => (h start).bind fun _ value _ _ _ => hnext value start

/-- What the general information was changed to stays, too. -/
theorem informed (h : Notes step) (start : Context) : Keeps start.Informed step := by
  rintro context result after ⟨change, hnoted⟩ hends
  exact ⟨change, h _ context result after hnoted hends⟩

end Notes

namespace Spares

variable {inv : Context → Prop} {step other : Step α} {next : α → Step β}

theorem of_keeps (h : Keeps inv step) : Spares inv step :=
  fun context _ after hinv hends => h context _ after hinv hends

theorem of_unfailing (h : Unfailing step) : Spares inv step :=
  fun context fault after _ hends => absurd hends (h context fault after)

/-- A fault comes from the first part, or from the rest in a context in which the property holds. -/
theorem bind (h : Keeps inv step) (hnext : ∀ value, Spares inv (next value)) :
    Spares inv (step >>= next) := by
  intro context fault after hinv hends
  rcases ends_bind_iff.mp hends with ⟨value, between, hstep, hrest⟩ | ⟨_, -, hstep⟩
  · exact hnext value between fault after (h _ _ _ hinv (yields_iff_ends.mp hstep)) hrest
  · exact h _ _ _ hinv hstep

theorem ite {p : Prop} [Decidable p] (h : Spares inv step) (hother : Spares inv other) :
    Spares inv (if p then step else other) := by
  split
  · exact h
  · exact hother

end Spares

namespace Unfailing

variable {step other : Step α} {next : α → Step β}

theorem pure (value : α) : Unfailing (Pure.pure value : Step α) := by
  intro context fault after hends
  cases (ends_pure_iff.mp hends).1

theorem change (change : Context → Context) : Unfailing (modify change : Step PUnit) := by
  intro context fault after hends
  cases (ends_modify_iff.mp hends).1

theorem bind (h : Unfailing step) (hnext : ∀ value, Unfailing (next value)) :
    Unfailing (step >>= next) := by
  intro context fault after hends
  rcases ends_bind_iff.mp hends with ⟨value, between, -, hrest⟩ | ⟨_, -, hstep⟩
  · exact hnext value between fault after hrest
  · exact h context _ after hstep

theorem ite {p : Prop} [Decidable p] (h : Unfailing step) (hother : Unfailing other) :
    Unfailing (if p then step else other) := by
  split
  · exact h
  · exact hother

theorem requireHashable (value : Datum) : Unfailing (look (Build.requireHashable value)) := by
  intro context fault after hends
  unfold Build.requireHashable at hends
  split at hends
  · exact pure () context fault after hends
  · exact not_ends_giveUp hends

theorem attempt (step : Step Unit) : Unfailing (Build.attempt step) := by
  intro context fault after hends
  have hrest := ends_get_bind_iff.mp hends
  split at hrest
  · cases (ends_modify_iff.mp hrest).1
  · exact not_ends_giveUp hrest

theorem forM {items : List α} {f : α → Step PUnit} (h : ∀ item, Unfailing (f item)) :
    Unfailing (items.forM f) := by
  induction items with
  | nil => exact pure _
  | cons item rest ih => exact bind (h item) fun _ => ih

end Unfailing

theorem Spares.reads_bind {start : Context} {step : Step α} {next : α → Step β} (h : Reads step)
    (hnext : ∀ value, Spares start.Noted (next value)) : Spares start.Noted (step >>= next) :=
  bind (Notes.of_reads h start) hnext

theorem reads_requireGlobal (view : View) (symbol : Symbol) : Reads (requireGlobal view symbol) :=
  Reads.ite (Reads.refuse _ _) (Reads.pure _)

theorem reads_required (view : View) (name : String) : Reads (required view name) :=
  (Reads.look _).bind fun _ => Reads.ite (Reads.refuse _ _) (Reads.pure _)

theorem reads_componentName (view : View) (attr : String) : Reads (componentName view attr) := by
  refine (Reads.look _).bind fun name => ?_
  split
  · exact Reads.refuse _ _
  · exact Reads.refuse _ _
  · exact Reads.pure _

theorem reads_schemaName (view : View) (symbol : Symbol) : Reads (schemaName view symbol) :=
  (Reads.look _).bind fun _ => Reads.ite (Reads.pure _) (reads_componentName _ _)

theorem notes_enterGlobal (unit : String) (symbol : Symbol) (node : Node) (tag : String) :
    Notes (enterGlobal unit symbol node tag) := by
  refine (Notes.of_reads (Reads.enter unit node)).bind fun view => ?_
  refine (Notes.of_reads (reads_requireGlobal view symbol)).bind fun _ => ?_
  exact (Notes.claim view _).bind fun _ => .of_reads (Reads.pure _)

theorem notes_claimComponent (view : View) (collection : String) (name : Datum) :
    Notes (claimComponent view collection name) :=
  (Notes.of_reads (Reads.look _)).bind fun _ => Notes.claim view _

section Handlers

variable {start : Context} {unit : String} {symbol : Symbol} {node : Node}

theorem spares_contact : Spares start.Noted (contact unit symbol node) := by
  refine .bind (notes_enterGlobal unit symbol node _ start) fun view => ?_
  refine .reads_bind (Reads.look _) fun _ => .reads_bind (Reads.look _) fun _ =>
    .reads_bind (Reads.look _) fun _ => .of_unfailing (.change _)

theorem spares_license : Spares start.Noted (license unit symbol node) := by
  refine .bind (notes_enterGlobal unit symbol node _ start) fun view => ?_
  refine .reads_bind (Reads.look _) fun _ => .reads_bind (Reads.look _) fun _ =>
    .reads_bind (Reads.look _) fun _ => .of_unfailing (.change _)

theorem spares_server : Spares start.Noted (server unit symbol node) := by
  refine .reads_bind (Reads.enter unit node) fun view =>
    .reads_bind (reads_requireGlobal view symbol) fun _ => .reads_bind (reads_required view _) fun url => ?_
  refine .bind (Notes.claim view _ start) fun _ => .reads_bind (Reads.look _) fun _ => ?_
  exact .of_unfailing (.change _)

theorem spares_apiTag : Spares start.Noted (apiTag unit symbol node) := by
  refine .reads_bind (Reads.enter unit node) fun view =>
    .reads_bind (reads_requireGlobal view symbol) fun _ => .reads_bind (reads_required view _) fun name => ?_
  refine .bind (Notes.claim view _ start) fun _ => .reads_bind (Reads.look _) fun _ => ?_
  exact .of_unfailing (.change _)

theorem spares_operation : Spares start.Noted (operation unit symbol node) := by
  refine .reads_bind (Reads.enter unit node) fun view => .ite (.of_keeps Keeps.refuse_bind) ?_
  refine .reads_bind (reads_required view _) fun given => ?_
  refine .reads_bind (Reads.look _) fun _ => .reads_bind (Reads.look _) fun _ =>
    .reads_bind (Reads.look _) fun _ => .reads_bind (Reads.look _) fun _ =>
    .reads_bind (Reads.look _) fun _ => .reads_bind (Reads.look _) fun _ =>
    .reads_bind (Reads.look _) fun nodes => .reads_bind ?_ fun _ => ?_
  · exact Reads.mapM fun child _ => (Reads.enter unit child).bind (reads_parameter unit)
  refine .reads_bind (Reads.look _) fun bodies =>
    .ite (.of_keeps Keeps.refuse_bind) (.reads_bind ?_ fun _ => ?_)
  · exact Reads.optionMapM fun child _ => (Reads.enter unit child).bind (reads_requestBody unit)
  refine .reads_bind (Reads.look _) fun answers => .reads_bind (reads_statusResponses _ _ _ _) fun _ =>
    .reads_bind (Reads.look _) fun _ => .bind (Notes.claim view _ start) fun _ => ?_
  exact .of_unfailing (.change _)

theorem unfailing_rememberSchema (name : Datum) : Unfailing (rememberSchema unit symbol name) :=
  .bind (.requireHashable _) fun _ => .change _

theorem spares_schemaComponent : Spares start.Noted (schemaComponent unit symbol node) := by
  refine .reads_bind (Reads.enter unit node) fun view => .ite (.of_keeps Keeps.refuse_bind) ?_
  refine .reads_bind (reads_schemaName view symbol) fun name =>
    .bind (notes_claimComponent view _ name start) fun _ =>
    .reads_bind (reads_viewedSchema unit view) fun schema => .of_unfailing ?_
  exact .bind (.change _) fun _ => .ite (unfailing_rememberSchema name) (.pure _)

/-- A component is read after its name is claimed, and registered last. -/
theorem spares_component {view : View} {attr collection : String} {read : Step Part} (h : Reads read)
    (change : Datum → Part → Model → Model × Option ModelError) :
    Spares start.Noted (do
      let name ← componentName view attr
      claimComponent view collection name
      let part ← read
      alter (change name part)) :=
  .reads_bind (reads_componentName view attr) fun name =>
    .bind (notes_claimComponent view collection name start) fun _ =>
    .reads_bind h fun _ => .of_unfailing (.change _)

theorem spares_parameterComponent : Spares start.Noted (parameterComponent unit symbol node) :=
  .reads_bind (Reads.enter unit node) fun view => spares_component (reads_parameter unit view) _

theorem spares_requestBodyComponent : Spares start.Noted (requestBodyComponent unit symbol node) :=
  .reads_bind (Reads.enter unit node) fun view => spares_component (reads_requestBody unit view) _

theorem spares_responseComponent : Spares start.Noted (responseComponent unit symbol node) := by
  refine .reads_bind (Reads.enter unit node) fun view => ?_
  split
  · split
    · exact .of_keeps (Keeps.refuse _ _)
    · exact .of_keeps (Keeps.giveUp _)
  · exact spares_component (reads_response unit view) _

theorem spares_securitySchemeComponent :
    Spares start.Noted (securitySchemeComponent unit symbol node) := by
  refine .reads_bind (Reads.enter unit node) fun view =>
    .reads_bind (reads_componentName view _) fun component =>
    .reads_bind (reads_required view _) fun type => .reads_bind (Reads.look _) fun _ =>
    .bind (notes_claimComponent view _ component start) fun _ => ?_
  exact .reads_bind (Reads.look _) fun _ => .reads_bind (Reads.look _) fun _ =>
    .reads_bind (Reads.look _) fun _ => .reads_bind (Reads.look _) fun _ =>
    .reads_bind (Reads.look _) fun _ => .of_unfailing (.change _)

theorem spares_fieldProperty : Spares start.Noted (fieldProperty unit symbol node) := by
  refine .reads_bind (Reads.enter unit node) fun view => .ite (.of_keeps Keeps.refuse_bind) ?_
  refine .reads_bind (Reads.look _) fun _ => .bind Keeps.get fun context => ?_
  refine .ite (.of_keeps Keeps.refuse_bind) ?_
  dsimp only
  split
  · refine .reads_bind (Reads.look _) fun given => .ite (.of_keeps Keeps.refuse_bind) ?_
    refine .ite (.of_keeps Keeps.refuse_bind) (.reads_bind (reads_viewedSchema unit view) fun part => ?_)
    exact .reads_bind (reads_withInferredType symbol part) fun _ => .of_unfailing (.change _)
  · exact .of_keeps (Keeps.refuse _ _)

/-- General information is taken over text by text, so that a fault may leave some of it behind. -/
theorem spares_info : Spares start.Informed (info unit symbol node) := by
  have hinform (change : Info → Info) : Keeps start.Informed (alterInfo change) := by
    rintro context result after ⟨first, hnoted⟩ hends
    obtain ⟨-, rfl⟩ := ends_modify_iff.mp hends
    refine ⟨change ∘ first, ?_, hnoted.typeSchemas, hnoted.origins, hnoted.diagnostics⟩
    exact (congrArg (fun model => (Model.inform change model).1) hnoted.model).trans
      (start.model.inform_inform first change)
  have hlook {α : Type} (found : Except Stop α) : Keeps start.Informed (look found) :=
    (Notes.of_reads (Reads.look found)).informed start
  refine .bind ((notes_enterGlobal unit symbol node _).informed start) fun view => ?_
  refine .bind (hlook _) fun _ => .bind (hinform _) fun _ => .bind (hlook _) fun _ =>
    .bind (hinform _) fun _ => .bind (hlook _) fun _ => .bind (hinform _) fun _ =>
    .bind (hlook _) fun _ => .bind (hinform _) fun _ => ?_
  refine .bind (hlook _) fun contacts => .bind (hlook _) fun licenses => .bind (hlook _) fun _ => ?_
  exact .of_unfailing (.bind (.forM fun _ => .attempt _) fun _ => .forM fun _ => .attempt _)

theorem spares_handler {tag : String} {handler : String → Symbol → Node → Step Unit}
    (h : handler? tag = some handler) (htag : tag ≠ "Info") :
    Spares start.Noted (handler unit symbol node) := by
  unfold handler? at h
  split at h
  case h_1 => exact absurd rfl htag
  case h_10 =>
    split_ifs at h
    · cases h
      exact spares_operation
    · cases h
      exact spares_parameterComponent
  all_goals cases h
  · exact spares_contact
  · exact spares_license
  · exact spares_server
  · exact spares_apiTag
  · exact spares_schemaComponent
  · exact spares_requestBodyComponent
  · exact spares_responseComponent
  · exact spares_securitySchemeComponent

end Handlers

theorem Context.Noted.informed {before after : Context} (h : before.Noted after) :
    before.Informed after := by
  refine ⟨id, ?_⟩
  rwa [Context.change, Model.inform_id]

namespace Placed

variable {placed : Placed} {start : Context}

theorem spares_step (htag : placed.node.tag ≠ .text "Info") : Spares start.Noted placed.step := by
  refine .ite spares_fieldProperty (.reads_bind (Reads.look _) fun _ => ?_)
  split
  · next handler hhandler =>
    obtain ⟨tag, htext, hhandler⟩ := Option.bind_eq_some_iff.mp hhandler
    refine spares_handler hhandler fun hinfo => htag ?_
    cases hnode : placed.node.tag <;> simp_all [Datum.text?]
  · exact .of_keeps (Keeps.throw _)

theorem spares_step_info (htag : placed.node.tag = .text "Info") :
    Spares start.Informed placed.step := by
  have hstep : placed.step = (look (requireHashable (.text "Info")) >>= fun _ =>
      info placed.unit placed.symbol placed.node) := by
    simp [step, isProperty, declare, htag, Datum.isText, Datum.text?, handler?]
  rw [hstep]
  exact .bind ((Notes.of_reads (Reads.look _)).informed start) fun _ => spares_info

/-- An annotation that ends in a fault adds nothing to the document: all that may have changed besides
warnings and claims are the texts of the general information, and these only if the annotation is the
one that states them. -/
theorem noted_of_fault {context after : Context} {fault : Fault}
    (h : Ends placed.step context (.error fault) after) :
    (placed.node.tag ≠ .text "Info" → context.Noted after) ∧ context.Informed after := by
  have hnoted (htag : placed.node.tag ≠ .text "Info") : context.Noted after :=
    spares_step htag context fault after (.refl context) h
  refine ⟨hnoted, ?_⟩
  by_cases htag : placed.node.tag = .text "Info"
  · exact spares_step_info htag context fault after (Context.Noted.refl context).informed h
  · exact (hnoted htag).informed

/-- A server whose description is no text: its address is claimed, but no server is added. -/
theorem noted_of_fault_server :
    let node : Node :=
      ⟨.text "Server", [(.text "url", .string "/"), (.text "description", .boolean true)], [], 1, 1⟩
    let placed : Placed := ⟨"api.php", .ofFile "api.php", node⟩
    ∃ fault after, Ends placed.step {} (.error fault) after ∧
      (placed.node.tag ≠ .text "Info" ∧ Context.Noted {} after) ∧ after.origins ≠ [] := by
  intro node placed
  have htag : placed.node.tag ≠ .text "Info" := by
    simp [placed, node]
  have hends : ∃ fault after, Ends placed.step {} (.error fault) after ∧ after.origins ≠ [] :=
    ⟨_, _, by with_unfolding_all rfl, by simp⟩
  obtain ⟨fault, after, hends, horigins⟩ := hends
  exact ⟨fault, after, hends, ⟨htag, (noted_of_fault hends).1 htag⟩, horigins⟩

/-- A version that is neither a text nor a number: the title stated before it stays. -/
theorem title_of_fault_version :
    let node : Node :=
      ⟨.text "Info", [(.text "title", .string "T"), (.text "version", .boolean true)], [], 1, 1⟩
    let placed : Placed := ⟨"api.php", .ofFile "api.php", node⟩
    ∃ fault after, Ends placed.step {} (.error fault) after ∧
      after.model.info = .info { title := .text "T" } none none ∧
      after.model ≠ ({} : Context).model := by
  intro node placed
  have hends : ∃ fault after, Ends placed.step {} (.error fault) after ∧
      after.model.info = .info { title := .text "T" } none none :=
    ⟨_, _, by with_unfolding_all rfl, rfl⟩
  obtain ⟨fault, after, hends, hinfo⟩ := hends
  refine ⟨fault, after, hends, hinfo, fun hmodel => ?_⟩
  rw [hmodel] at hinfo
  cases hinfo

end Placed

end Build

end DocCompiler
