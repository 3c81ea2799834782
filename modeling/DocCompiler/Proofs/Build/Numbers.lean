import DocCompiler.Proofs.Build.Document
import DocCompiler.Proofs.Document.NumberChange

/-!
The numbers in a model are those that annotations give: building brings no other number into a model.
-/

namespace DocCompiler

open Annotation

variable {admits : Number → Prop}

/-- Data whose numbers are admitted, and any references. -/
def Terms.numbers (admits : Number → Prop) : Terms where
  leaf _ data := data.Numbers admits
  link _ _ := True
  text _ := trivial
  bool _ := trivial

namespace Terms

variable {kind : LeafKind} {data : Datum}

theorem numbers_of_stated (h : (Terms.numbers admits).Stated kind data) : data.Numbers admits := by
  obtain ⟨marker, rfl⟩ | h := h
  · trivial
  · exact h

theorem numbers_of_given (h : (Terms.numbers admits).Given kind data) : data.Numbers admits := by
  obtain rfl | h := h
  · trivial
  · exact numbers_of_stated h

theorem settled_of_stated (h : (Terms.numbers admits).Stated kind data) : data.settled.Numbers admits :=
  Datum.numbers_settled _ (numbers_of_stated h)

theorem settled_of_given (h : (Terms.numbers admits).Given kind data) : data.settled.Numbers admits :=
  Datum.numbers_settled _ (numbers_of_given h)

theorem numbers_of_listed (h : (Terms.numbers admits).Listed data) : data.Numbers admits := by
  obtain ⟨items, rfl, hitems⟩ := h
  exact Datum.numbers_list_iff.mpr fun item hitem => numbers_of_stated (hitems item hitem)

end Terms

namespace Annotation.Value

mutual

/-- The numbers in a plain value are those in its leaves. -/
theorem numbers_toDatum? {place : Option Location} : (value : Value) →
    value.Leaves (Terms.numbers admits).leaf → ∀ datum, value.toDatum? place = some datum →
      datum.settled.Numbers admits
  | .leaf kind data, hleaves, datum, h => by
      cases kind with
      | constant =>
          cases h
          trivial
      | _ =>
          cases h
          exact Datum.numbers_settled _ hleaves
  | .array items, hleaves, datum, h => by
      obtain ⟨found, hfound, rfl⟩ := Option.map_eq_some_iff.mp h
      exact Datum.numbers_settled_list (numbers_toDatumItems? items hleaves found hfound)
  | .mapping entries, hleaves, datum, h => by
      obtain ⟨found, hfound, rfl⟩ := Option.map_eq_some_iff.mp h
      refine Datum.numbers_settled_map fun entry hentry => ?_
      obtain ⟨given, hgiven, heq⟩ := List.mem_map.mp (Datum.mem_distinctEntries hentry).2
      exact heq ▸ numbers_toDatumEntries? entries hleaves found hfound given hgiven
  | .tag _, _, _, h => by cases h

theorem numbers_toDatumItems? {place : Option Location} : (items : List Value) →
    Value.AllLeaves (Terms.numbers admits).leaf items → ∀ found, toDatumItems? place items = some found →
      ∀ datum ∈ found, datum.settled.Numbers admits
  | [], _, _, h => by
      cases h
      simp
  | item :: rest, hleaves, found, h => by
      obtain ⟨first, hfirst, h⟩ := Option.bind_eq_some_iff.mp h
      obtain ⟨others, hothers, h⟩ := Option.bind_eq_some_iff.mp h
      cases h
      exact List.forall_mem_cons.mpr ⟨numbers_toDatum? item hleaves.1 first hfirst,
        numbers_toDatumItems? rest hleaves.2 others hothers⟩

theorem numbers_toDatumEntries? {place : Option Location} : (entries : List (Datum × Value)) →
    Value.EntryLeaves (Terms.numbers admits).leaf entries →
      ∀ found, toDatumEntries? place entries = some found → ∀ entry ∈ found, entry.2.settled.Numbers admits
  | [], _, _, h => by
      cases h
      simp
  | (key, item) :: rest, hleaves, found, h => by
      obtain ⟨_, -, h⟩ := Option.bind_eq_some_iff.mp h
      obtain ⟨first, hfirst, h⟩ := Option.bind_eq_some_iff.mp h
      obtain ⟨others, hothers, h⟩ := Option.bind_eq_some_iff.mp h
      cases h
      exact List.forall_mem_cons.mpr ⟨numbers_toDatum? item hleaves.1 first hfirst,
        numbers_toDatumEntries? rest hleaves.2 others hothers⟩

end

end Annotation.Value

namespace Build

open Terms View

section Fragments

variable {unit : String} {view : View} {node : Node} {context after : Context}

theorem View.numbers_of_literal (hleaves : view.node.Leaves (Terms.numbers admits).leaf) {name : String}
    {data : Datum} (h : view.literal name = .ok data) : data.settled.Numbers admits := by
  unfold View.literal at h
  split at h
  · cases h
    trivial
  · rename_i value hget
    split at h
    · rename_i datum hdatum
      cases h
      exact value.numbers_toDatum? (View.leaves_of_get? hleaves hget) _ hdatum
    · simp [View.wrongKind, View.fail] at h

theorem numbers_of_yields_reference {raw : Datum} {expected : Collection} {link : Reference}
    (h : Yields (reference view raw expected) context link after) : (Part.reference link).Numbers admits := by
  rw [Part.numbers_reference_iff]
  obtain ⟨-, ⟨marker, hname⟩ | ⟨name, hname, -⟩, -⟩ := fresh_of_yields_reference h
  all_goals
    rw [hname]
    trivial

theorem numbers_of_yields_orReference {expected : Collection} {inline : Step Part} {part : Part}
    (hinline : ∀ context part after, Yields inline context part after → part.Numbers admits)
    (h : Yields (orReference view expected inline) context part after) : part.Numbers admits := by
  obtain ⟨raw, -, ⟨-, hbody⟩ | ⟨-, -, link, hlink, rfl⟩⟩ := yields_orReference_iff.mp h
  · exact hinline _ _ _ hbody
  · exact numbers_of_yields_reference hlink

/-- The data in facets that are read, and the names of the properties that they require. -/
theorem numbers_of_yields_facets (hleaves : view.node.Leaves (Terms.numbers admits).leaf)
    {hasProperties hasItems : Bool} {found : Facets}
    (h : Yields (facets view hasProperties hasItems) context found after) (properties : Registry)
    (items : Option Part) :
    (∀ value ∈ (Part.schema found properties items).data, value.settled.Numbers admits) ∧
      found.required.Numbers admits := by
  simp only [facets, yields_bind_iff, yields_look_iff, yields_requireArray_iff, yields_pure_iff, and_assoc,
    exists_and_left, exists_eq_left, exists_const] at h
  obtain ⟨given, hgiven, enum, henum, -, title, htitle, description, hdescription, format, hformat,
    required, hrequired, sample, hsample, default, hdefault, minimum, hminimum, maximum, hmaximum,
    nullable, hnullable, readOnly, hreadOnly, writeOnly, hwriteOnly, rfl, -⟩ := h
  have htype : (if !given.isNull then given else if hasProperties then .text "object"
      else if hasItems then .text "array" else .null : Datum).settled.Numbers admits := by
    split_ifs
    · exact settled_of_given (given_of_text hleaves hgiven)
    all_goals trivial
  refine ⟨?_, numbers_of_listed (listed_of_texts hleaves hrequired)⟩
  simp only [Part.data, List.forall_mem_cons]
  exact ⟨trivial, settled_of_given (given_of_text hleaves htitle),
    settled_of_given (given_of_text hleaves hdescription), htype,
    settled_of_given (given_of_text hleaves hformat), numbers_of_literal hleaves hsample,
    numbers_of_literal hleaves henum, numbers_of_literal hleaves hdefault,
    settled_of_given (given_of_number hleaves hminimum), settled_of_given (given_of_number hleaves hmaximum),
    settled_of_given (given_of_flag hleaves hnullable), settled_of_given (given_of_flag hleaves hreadOnly),
    settled_of_given (given_of_flag hleaves hwriteOnly), List.forall_mem_nil _⟩

theorem numbers_of_yields_schemaBody {nested : Node → Step Part}
    (hleaves : view.node.Leaves (Terms.numbers admits).leaf)
    (hnested : ∀ node : Node, node.height < view.node.height → node.Leaves (Terms.numbers admits).leaf →
      ∀ context part after, Yields (nested node) context part after → part.Numbers admits)
    {part : Part} (h : Yields (schemaBody unit nested view) context part after) : part.Numbers admits := by
  simp only [schemaBody, yields_bind_iff, yields_look_iff, yields_ite_iff, yields_pure_iff, not_yields_refuse,
    and_assoc, exists_and_left, exists_eq_left, exists_const, false_and, and_false, false_or] at h
  obtain ⟨children, hchildren, found, _, hproperties, nodes, hnodes, _, -, -, items, _, hitems,
    facets, _, hfacets, rfl, rfl⟩ := h
  obtain ⟨-, hfound⟩ := entries_of_yields_properties
    (fun node hnode => leaves_of_nested hleaves hchildren hnode)
    (fun node hnode => hnested node (height_of_nested hchildren hnode)
      (leaves_of_nested hleaves hchildren hnode))
    List.Pairwise.nil (by simp) hproperties
  obtain ⟨hdata, hrequired⟩ := numbers_of_yields_facets hleaves hfacets found items
  refine .of hdata ?_ (List.forall_mem_append.mpr ⟨?_, ?_⟩)
  · exact List.forall_mem_cons.mpr ⟨hrequired, List.forall_mem_map.mpr fun entry hentry => (hfound entry hentry).1⟩
  · exact List.forall_mem_map.mpr fun entry hentry => (hfound entry hentry).2
  · intro part hpart
    obtain ⟨node, hnode, hyields⟩ := yields_option_mapM hitems (Option.mem_toList.mp hpart)
    have hmem := List.mem_of_head? hnode
    exact hnested node (height_of_nested hnodes hmem) (leaves_of_nested hleaves hnodes hmem) _ _ _ hyields

theorem numbers_of_yields_schemaOf {depth : Nat} (hdepth : view.node.height ≤ depth)
    (hleaves : view.node.Leaves (Terms.numbers admits).leaf) {part : Part}
    (h : Yields (schemaOf unit depth view) context part after) : part.Numbers admits := by
  induction depth generalizing view context part after with
  | zero =>
      have hpos : 0 < view.node.height := by
        rcases view with ⟨⟨tag, attributes, children, line, column⟩, place⟩
        simp only [Node.height]
        omega
      omega
  | succ depth ih =>
      refine numbers_of_yields_orReference (fun context part after hbody => ?_) h
      refine numbers_of_yields_schemaBody hleaves (fun node hheight hnode context part after hyields => ?_) hbody
      obtain ⟨inner, between, hinner, hrest⟩ := yields_bind_iff.mp hyields
      obtain ⟨rfl, -⟩ := yields_enter_iff.mp hinner
      exact ih (by simp only [View.of]; omega) hnode hrest

theorem numbers_of_yields_viewedSchema (hleaves : view.node.Leaves (Terms.numbers admits).leaf) {part : Part}
    (h : Yields (viewedSchema unit view) context part after) : part.Numbers admits :=
  numbers_of_yields_schemaOf (Nat.le_refl _) hleaves h

theorem numbers_of_yields_schema (hleaves : node.Leaves (Terms.numbers admits).leaf) {part : Part}
    (h : Yields (schema unit node) context part after) : part.Numbers admits := by
  obtain ⟨view, between, hview, hrest⟩ := yields_bind_iff.mp h
  obtain ⟨rfl, -⟩ := yields_enter_iff.mp hview
  exact numbers_of_yields_viewedSchema hleaves hrest

/-- The schema among nested annotations that may hold one. -/
theorem numbers_of_yields_mapM {name : String} {tags : List String}
    (hleaves : view.node.Leaves (Terms.numbers admits).leaf) {nodes : List Node}
    (hnodes : view.nested tags (some name) = .ok nodes) {found : Option Part}
    (h : Yields (nodes.head?.mapM (schema unit)) context found after) :
    ∀ part ∈ found.toList, part.Numbers admits := by
  intro part hpart
  obtain ⟨node, hnode, hyields⟩ := yields_option_mapM h (Option.mem_toList.mp hpart)
  exact numbers_of_yields_schema (leaves_of_nested hleaves hnodes (List.mem_of_head? hnode)) hyields

theorem numbers_of_yields_mediaType (hleaves : node.Leaves (Terms.numbers admits).leaf) {found : Datum × Part}
    (h : Yields (mediaType unit node) context found after) :
    found.1.Numbers admits ∧ found.2.Numbers admits := by
  unfold mediaType at h
  split at h
  · obtain ⟨part, between, hpart, h⟩ := yields_bind_iff.mp h
    obtain ⟨rfl, -⟩ := yields_pure_iff.mp h
    refine ⟨trivial, .of (List.forall_mem_singleton.mpr trivial) (List.forall_mem_nil _) ?_⟩
    exact List.forall_mem_singleton.mpr (numbers_of_yields_schema hleaves hpart)
  · simp only [yields_bind_iff, yields_look_iff, yields_ite_iff, yields_pure_iff, yields_enter_iff,
      not_yields_refuse, and_assoc, exists_and_left, exists_eq_left, exists_const, false_and, and_false,
      false_or] at h
    obtain ⟨_, -, type, -, -, nodes, hnodes, _, -, inner, _, hinner, sample, hsample, rfl, -⟩ := h
    refine ⟨Datum.numbers_asText _, .of ?_ (List.forall_mem_nil _) (numbers_of_yields_mapM hleaves hnodes hinner)⟩
    exact List.forall_mem_singleton.mpr (numbers_of_literal hleaves hsample)

theorem numbers_of_yields_content (hleaves : view.node.Leaves (Terms.numbers admits).leaf) {found : Registry}
    (h : Yields (content unit view) context found after) :
    ∀ entry ∈ found, entry.1.Numbers admits ∧ entry.2.Numbers admits := by
  simp only [content, yields_bind_iff, yields_look_iff, yields_pure_iff, and_assoc, exists_and_left,
    exists_eq_left] at h
  obtain ⟨nodes, hnodes, content, between, hcontent, _, -, rfl, -⟩ := h
  exact (entries_of_yields_contents (fun type media => type.Numbers admits ∧ media.Numbers admits)
    (fun node hnode _ _ _ => numbers_of_yields_mediaType (leaves_of_nested hleaves hnodes hnode))
    List.Pairwise.nil (by simp) hcontent).2

theorem numbers_of_yields_parameter (hleaves : view.node.Leaves (Terms.numbers admits).leaf) {part : Part}
    (h : Yields (parameter unit view) context part after) : part.Numbers admits := by
  refine numbers_of_yields_orReference (fun context part after hbody => ?_) h
  simp only [parameterBody, yields_bind_iff, yields_look_iff, yields_ite_iff, yields_pure_iff, not_yields_refuse,
    and_assoc, exists_and_left, exists_eq_left, exists_const, false_and, and_false, false_or] at hbody
  obtain ⟨location, _, hlocation, nodes, hnodes, _, -, -, given, hgiven, name, hname, description,
    hdescription, deprecated, hdeprecated, inner, _, hinner, sample, hsample, rfl, -⟩ := hbody
  have hrequired : (if given.isNull && location.isText "path" then .bool true else given : Datum).settled.Numbers
      admits := by
    split_ifs
    · trivial
    · exact settled_of_given (given_of_flag hleaves hgiven)
  refine .of ?_ (List.forall_mem_nil _) (numbers_of_yields_mapM hleaves hnodes hinner)
  simp only [Part.data, List.forall_mem_cons]
  exact ⟨settled_of_stated (stated_orEmpty (given_of_text hleaves hname)),
    settled_of_stated (stated_of_yields_parameterLocation hleaves hlocation),
    settled_of_given (given_of_text hleaves hdescription), hrequired,
    settled_of_given (given_of_flag hleaves hdeprecated), numbers_of_literal hleaves hsample,
    List.forall_mem_nil _⟩

theorem numbers_of_yields_requestBody (hleaves : view.node.Leaves (Terms.numbers admits).leaf) {part : Part}
    (h : Yields (requestBody unit view) context part after) : part.Numbers admits := by
  refine numbers_of_yields_orReference (fun context part after hbody => ?_) h
  simp only [yields_bind_iff, yields_look_iff, yields_pure_iff, and_assoc, exists_and_left,
    exists_eq_left] at hbody
  obtain ⟨content, between, hcontent, description, hdescription, required, hrequired, rfl, -⟩ := hbody
  have hentries := numbers_of_yields_content hleaves hcontent
  refine .of ?_ (List.forall_mem_map.mpr fun entry hentry => (hentries entry hentry).1)
    (List.forall_mem_map.mpr fun entry hentry => (hentries entry hentry).2)
  simp only [Part.data, List.forall_mem_cons]
  exact ⟨settled_of_given (given_of_text hleaves hdescription),
    settled_of_given (given_of_flag hleaves hrequired), List.forall_mem_nil _⟩

theorem numbers_of_yields_response (hleaves : view.node.Leaves (Terms.numbers admits).leaf) {part : Part}
    (h : Yields (response unit view) context part after) : part.Numbers admits := by
  refine numbers_of_yields_orReference (fun context part after hbody => ?_) h
  simp only [yields_bind_iff, yields_look_iff, yields_pure_iff, and_assoc, exists_and_left,
    exists_eq_left] at hbody
  obtain ⟨content, between, hcontent, description, hdescription, rfl, -⟩ := hbody
  have hentries := numbers_of_yields_content hleaves hcontent
  refine .of ?_ (List.forall_mem_map.mpr fun entry hentry => (hentries entry hentry).1)
    (List.forall_mem_map.mpr fun entry hentry => (hentries entry hentry).2)
  exact List.forall_mem_singleton.mpr (settled_of_given (given_of_text hleaves hdescription))

theorem numbers_of_yields_statusResponse (hleaves : node.Leaves (Terms.numbers admits).leaf)
    {found : Datum × Part} (h : Yields (statusResponse unit node) context found after) :
    found.1.Numbers admits ∧ found.2.Numbers admits := by
  simp only [statusResponse, yields_bind_iff, yields_look_iff, yields_ite_iff, yields_enter_iff,
    yields_pure_iff, not_yields_refuse, and_assoc, exists_and_left, exists_eq_left, and_false,
    false_or] at h
  obtain ⟨_, -, status, hstatus, -, part, _, hpart, rfl, -⟩ := h
  exact ⟨numbers_of_given (given_of_textOrNumber hleaves hstatus), numbers_of_yields_response hleaves hpart⟩

end Fragments

section Keeping

variable (admits) in
/-- All numbers in what is built are admitted, and so are those in the names of the schemas of types. -/
structure Context.Numbers (context : Context) : Prop where
  model : context.model.Numbers admits
  typeNames : ∀ entry ∈ context.typeSchemas, entry.2.Numbers admits

namespace Context.Numbers

variable {context : Context}

theorem warn (h : context.Numbers admits) (warnings : List Diagnostic) : (context.warn warnings).Numbers admits :=
  ⟨h.model, h.typeNames⟩

theorem claim (h : context.Numbers admits) (key : Claim) (place : Location) :
    (context.claim key place).Numbers admits :=
  ⟨h.model, h.typeNames⟩

end Context.Numbers

variable {unit : String} {symbol : Symbol} {node : Node}

theorem keeps_numbers_alter {change : Model → Model × Option ModelError}
    (h : ∀ model, model.Numbers admits → (change model).1.Numbers admits) :
    Keeps (Context.Numbers admits) (alter change) :=
  Keeps.alter fun _ hcontext => ⟨h _ hcontext.model, hcontext.typeNames⟩

theorem keeps_numbers_enterGlobal (tag : String) :
    Keeps (Context.Numbers admits) (enterGlobal unit symbol node tag) :=
  keeps_enterGlobal (fun _ _ h => h.warn _) (fun _ _ _ h => h.claim _ _) unit symbol node tag

theorem keeps_numbers_contact (hleaves : node.Leaves (Terms.numbers admits).leaf) :
    Keeps (Context.Numbers admits) (contact unit symbol node) := by
  refine (keeps_numbers_enterGlobal _).bind fun _ view _ _ hview => ?_
  obtain rfl := eq_of_yields_enterGlobal hview
  refine Keeps.look_bind fun name hname => Keeps.look_bind fun email hemail =>
    Keeps.look_bind fun url hurl => keeps_numbers_alter fun model hmodel => ?_
  have hpart : (Part.contact { name, email, url }).Numbers admits := by
    refine .of ?_ (List.forall_mem_nil _) (List.forall_mem_nil _)
    simp only [Part.data, List.forall_mem_cons]
    exact ⟨settled_of_given (given_of_text hleaves hname), settled_of_given (given_of_text hleaves hemail),
      settled_of_given (given_of_text hleaves hurl), List.forall_mem_nil _⟩
  unfold withContact
  split
  · rename_i info person conditions hinfo
    obtain ⟨data, names, nested⟩ := hinfo ▸ hmodel.info
    refine hmodel.withInfo (.of data names (List.forall_mem_append.mpr ⟨?_, ?_⟩))
    · exact List.forall_mem_singleton.mpr hpart
    · exact (List.forall_mem_append.mp nested).2
  · exact hmodel

theorem keeps_numbers_license (hleaves : node.Leaves (Terms.numbers admits).leaf) :
    Keeps (Context.Numbers admits) (license unit symbol node) := by
  refine (keeps_numbers_enterGlobal _).bind fun _ view _ _ hview => ?_
  obtain rfl := eq_of_yields_enterGlobal hview
  refine Keeps.look_bind fun name hname => Keeps.look_bind fun url hurl =>
    Keeps.look_bind fun identifier hidentifier => keeps_numbers_alter fun model hmodel => ?_
  have hpart : (Part.license { name, url, identifier }).Numbers admits := by
    refine .of ?_ (List.forall_mem_nil _) (List.forall_mem_nil _)
    simp only [Part.data, List.forall_mem_cons]
    exact ⟨settled_of_given (given_of_text hleaves hname), settled_of_given (given_of_text hleaves hurl),
      settled_of_given (given_of_text hleaves hidentifier), List.forall_mem_nil _⟩
  unfold withLicense
  split
  · rename_i info person conditions hinfo
    obtain ⟨data, names, nested⟩ := hinfo ▸ hmodel.info
    refine hmodel.withInfo (.of data names (List.forall_mem_append.mpr ⟨?_, ?_⟩))
    · exact (List.forall_mem_append.mp nested).1
    · exact List.forall_mem_singleton.mpr hpart
  · exact hmodel

/-- A change of general information that keeps the numbers in its texts admitted. -/
theorem keeps_numbers_alterInfo {change : Info → Info}
    (h : ∀ value : Info, (∀ data ∈ (Part.info value none none).data, data.settled.Numbers admits) →
      ∀ data ∈ (Part.info (change value) none none).data, data.settled.Numbers admits) :
    Keeps (Context.Numbers admits) (alterInfo change) := by
  refine keeps_numbers_alter fun model hmodel => ?_
  split
  · rename_i value person conditions hinfo
    obtain ⟨data, names, nested⟩ := hinfo ▸ hmodel.info
    exact hmodel.withInfo (.of (h value data) names nested)
  · exact hmodel

theorem keeps_numbers_info (hleaves : node.Leaves (Terms.numbers admits).leaf) :
    Keeps (Context.Numbers admits) (info unit symbol node) := by
  refine (keeps_numbers_enterGlobal _).bind fun _ view _ _ hview => ?_
  obtain rfl := eq_of_yields_enterGlobal hview
  refine Keeps.look_bind fun title htitle => ?_
  refine Keeps.bind (keeps_numbers_alterInfo fun value h => ?_) fun _ _ _ _ _ => ?_
  · simp only [Part.data, List.forall_mem_cons] at h ⊢
    exact ⟨settled_of_given (given_of_text hleaves htitle), h.2⟩
  refine Keeps.look_bind fun version hversion => ?_
  refine Keeps.bind (keeps_numbers_alterInfo fun value h => ?_) fun _ _ _ _ _ => ?_
  · simp only [Part.data, List.forall_mem_cons] at h ⊢
    exact ⟨h.1, settled_of_given (given_of_textOrNumber hleaves hversion), h.2.2⟩
  refine Keeps.look_bind fun description hdescription => ?_
  refine Keeps.bind (keeps_numbers_alterInfo fun value h => ?_) fun _ _ _ _ _ => ?_
  · simp only [Part.data, List.forall_mem_cons] at h ⊢
    exact ⟨h.1, h.2.1, settled_of_given (given_of_text hleaves hdescription), h.2.2.2⟩
  refine Keeps.look_bind fun termsOfService hterms => ?_
  refine Keeps.bind (keeps_numbers_alterInfo fun value h => ?_) fun _ _ _ _ _ => ?_
  · simp only [Part.data, List.forall_mem_cons] at h ⊢
    exact ⟨h.1, h.2.1, h.2.2.1, settled_of_given (given_of_text hleaves hterms), h.2.2.2.2⟩
  refine Keeps.look_bind fun contacts hcontacts => Keeps.look_bind fun licenses hlicenses =>
    Keeps.look_bind fun _ _ => ?_
  refine Keeps.bind (Keeps.forM fun child hchild => ?_) fun _ _ _ _ _ => Keeps.forM fun child hchild => ?_
  · exact (keeps_numbers_contact (leaves_of_nested hleaves hcontacts hchild)).attempt fun _ _ h => h.warn _
  · exact (keeps_numbers_license (leaves_of_nested hleaves hlicenses hchild)).attempt fun _ _ h => h.warn _

theorem keeps_numbers_server (hleaves : node.Leaves (Terms.numbers admits).leaf) :
    Keeps (Context.Numbers admits) (server unit symbol node) := by
  refine Keeps.enter_bind (fun _ _ h => h.warn _) ?_
  refine (keeps_requireGlobal _ symbol).bind fun _ _ _ _ _ => ?_
  refine (keeps_required _ _).bind fun _ url _ _ hurl => ?_
  refine (keeps_claim fun _ h => h.claim _ _).bind fun _ _ _ _ _ => ?_
  refine Keeps.look_bind fun description hdescription => keeps_numbers_alter fun model hmodel => ?_
  refine hmodel.addServer (.of ?_ (List.forall_mem_nil _) (List.forall_mem_nil _)) false
  simp only [Part.data, List.forall_mem_cons]
  exact ⟨settled_of_stated (stated_of_yields_required hleaves hurl),
    settled_of_given (given_of_text hleaves hdescription), List.forall_mem_nil _⟩

theorem keeps_numbers_apiTag (hleaves : node.Leaves (Terms.numbers admits).leaf) :
    Keeps (Context.Numbers admits) (apiTag unit symbol node) := by
  refine Keeps.enter_bind (fun _ _ h => h.warn _) ?_
  refine (keeps_requireGlobal _ symbol).bind fun _ _ _ _ _ => ?_
  refine (keeps_required _ _).bind fun _ name _ _ hname => ?_
  refine (keeps_claim fun _ h => h.claim _ _).bind fun _ _ _ _ _ => ?_
  refine Keeps.look_bind fun description hdescription => keeps_numbers_alter fun model hmodel => ?_
  refine hmodel.addTag (.of ?_ (List.forall_mem_nil _) (List.forall_mem_nil _))
  simp only [Part.data, List.forall_mem_cons]
  exact ⟨settled_of_stated (stated_of_yields_required hleaves hname),
    settled_of_given (given_of_text hleaves hdescription), List.forall_mem_nil _⟩

theorem keeps_numbers_operation (hleaves : node.Leaves (Terms.numbers admits).leaf)
    (hsymbol : symbol.qualifiedName.Numbers admits) :
    Keeps (Context.Numbers admits) (operation unit symbol node) := by
  refine Keeps.enter_bind (fun _ _ h => h.warn _) ?_
  refine Keeps.ite (fun _ => Keeps.refuse_bind) fun _ => ?_
  refine (keeps_required _ _).bind fun _ given _ _ _ => ?_
  refine Keeps.look_bind fun operationId hoperationId => Keeps.look_bind fun tags htags =>
    Keeps.look_bind fun summary hsummary => Keeps.look_bind fun description hdescription =>
    Keeps.look_bind fun deprecated hdeprecated => Keeps.look_bind fun security hsecurity =>
    Keeps.look_bind fun nodes hnodes => ?_
  refine Keeps.of_reads_bind ?_ (fun _ _ h => h.warn _) fun _ parameters _ hparameters => ?_
  · exact Reads.mapM fun child _ =>
      (Reads.enter unit child).bind fun view => reads_parameter unit view
  refine Keeps.look_bind fun bodies hbodies => Keeps.ite (fun _ => Keeps.refuse_bind) fun _ => ?_
  refine Keeps.of_reads_bind ?_ (fun _ _ h => h.warn _) fun _ body _ hbody => ?_
  · exact Reads.optionMapM fun child _ =>
      (Reads.enter unit child).bind fun view => reads_requestBody unit view
  refine Keeps.look_bind fun answers hanswers => ?_
  refine Keeps.of_reads_bind (reads_statusResponses _ _ _ _) (fun _ _ h => h.warn _)
    fun _ responses _ hresponses => ?_
  refine Keeps.look_bind fun _ _ => (keeps_claim fun _ h => h.claim _ _).bind fun _ _ _ _ _ => ?_
  refine keeps_numbers_alter fun model hmodel => hmodel.addOperation ?_
  obtain ⟨-, hentries⟩ := entries_of_yields_statusResponses
    (fun status part => status.Numbers admits ∧ part.Numbers admits)
    (fun child hchild _ _ _ => numbers_of_yields_statusResponse (leaves_of_nested hleaves hanswers hchild))
    List.Pairwise.nil (by simp) hresponses
  have hid : (if operationId.isTruthy then operationId else symbol.qualifiedName).settled.Numbers admits := by
    split_ifs
    · exact settled_of_given (given_of_text hleaves hoperationId)
    · exact Datum.numbers_settled _ hsymbol
  refine .of ?_ ?_ ?_
  · simp only [Part.data, List.forall_mem_cons]
    exact ⟨hid, settled_of_given (given_of_text hleaves hsummary),
      settled_of_given (given_of_text hleaves hdescription),
      settled_of_given (given_of_flag hleaves hdeprecated), numbers_of_literal hleaves hsecurity,
      List.forall_mem_nil _⟩
  · simp only [Part.names, List.forall_mem_cons]
    exact ⟨trivial, numbers_of_listed (listed_of_texts hleaves htags),
      List.forall_mem_map.mpr fun entry hentry => (hentries entry hentry).1⟩
  · simp only [Part.nested, List.forall_mem_append]
    refine ⟨⟨fun part hpart => ?_, fun part hpart => ?_⟩, ?_⟩
    · obtain ⟨child, hchild, before, between, hyields⟩ := exists_of_yields_mapM hparameters hpart
      obtain ⟨view, _, hview, hrest⟩ := yields_bind_iff.mp hyields
      obtain ⟨rfl, -⟩ := yields_enter_iff.mp hview
      exact numbers_of_yields_parameter (leaves_of_nested hleaves hnodes hchild) hrest
    · obtain ⟨child, hchild, hyields⟩ := yields_option_mapM hbody (Option.mem_toList.mp hpart)
      obtain ⟨view, _, hview, hrest⟩ := yields_bind_iff.mp hyields
      obtain ⟨rfl, -⟩ := yields_enter_iff.mp hview
      exact numbers_of_yields_requestBody
        (leaves_of_nested hleaves hbodies (List.mem_of_head? hchild)) hrest
    · exact List.forall_mem_map.mpr fun entry hentry => (hentries entry hentry).2

theorem keeps_numbers_register {collection : Collection} {name : Datum} {part : Part}
    (hname : name.Numbers admits) (hpart : part.Numbers admits) :
    Keeps (Context.Numbers admits) (alter fun model => model.register collection name part) :=
  keeps_numbers_alter fun _ hmodel => hmodel.register collection hname hpart

theorem numbers_named {name : Datum} {part : Part} (hname : name.Numbers admits) (h : part.Numbers admits) :
    (named name part).Numbers admits := by
  cases part with
  | schema facets properties items =>
      obtain ⟨data, names, nested⟩ := h
      refine .of ?_ names nested
      simp only [named, Part.data, List.forall_mem_cons] at data ⊢
      exact ⟨Datum.numbers_settled _ hname, data.2⟩
  | _ => exact h

theorem keeps_numbers_schemaComponent (hleaves : node.Leaves (Terms.numbers admits).leaf)
    (hsymbol : symbol.name.Numbers admits) :
    Keeps (Context.Numbers admits) (schemaComponent unit symbol node) := by
  refine Keeps.enter_bind (fun _ _ h => h.warn _) ?_
  refine Keeps.ite (fun _ => Keeps.refuse_bind) fun _ => ?_
  refine (keeps_schemaName _ symbol).bind fun _ name _ _ hyields => ?_
  have hname : name.Numbers admits := leaf_of_yields_schemaName hleaves hsymbol hyields
  refine (keeps_claimComponent (fun _ _ _ h => h.claim _ _) _ _ _).bind fun _ _ _ _ _ => ?_
  refine Keeps.of_reads_bind (reads_viewedSchema _ _) (fun _ _ h => h.warn _) fun _ part _ hpart => ?_
  refine (keeps_numbers_register hname
    (numbers_named hname (numbers_of_yields_viewedSchema hleaves hpart))).bind fun _ _ _ _ _ => ?_
  refine Keeps.ite (fun _ => Keeps.look_bind fun _ _ => Keeps.alter fun context h => ⟨h.model, ?_⟩)
    fun _ => Keeps.pure _
  exact List.forall_mem_cons.mpr ⟨hname, fun entry hentry => h.typeNames entry (List.mem_filter.mp hentry).1⟩

theorem keeps_numbers_parameterComponent (hleaves : node.Leaves (Terms.numbers admits).leaf) :
    Keeps (Context.Numbers admits) (parameterComponent unit symbol node) := by
  refine Keeps.enter_bind (fun _ _ h => h.warn _) ?_
  refine (keeps_componentName _ _).bind fun _ name _ _ hname => ?_
  refine (keeps_claimComponent (fun _ _ _ h => h.claim _ _) _ _ _).bind fun _ _ _ _ _ => ?_
  refine Keeps.of_reads_bind (reads_parameter _ _) (fun _ _ h => h.warn _) fun _ part _ hpart => ?_
  exact keeps_numbers_register (leaf_of_yields_componentName hleaves hname)
    (numbers_of_yields_parameter hleaves hpart)

theorem keeps_numbers_requestBodyComponent (hleaves : node.Leaves (Terms.numbers admits).leaf) :
    Keeps (Context.Numbers admits) (requestBodyComponent unit symbol node) := by
  refine Keeps.enter_bind (fun _ _ h => h.warn _) ?_
  refine (keeps_componentName _ _).bind fun _ name _ _ hname => ?_
  refine (keeps_claimComponent (fun _ _ _ h => h.claim _ _) _ _ _).bind fun _ _ _ _ _ => ?_
  refine Keeps.of_reads_bind (reads_requestBody _ _) (fun _ _ h => h.warn _) fun _ part _ hpart => ?_
  exact keeps_numbers_register (leaf_of_yields_componentName hleaves hname)
    (numbers_of_yields_requestBody hleaves hpart)

theorem keeps_numbers_responseComponent (hleaves : node.Leaves (Terms.numbers admits).leaf) :
    Keeps (Context.Numbers admits) (responseComponent unit symbol node) := by
  refine Keeps.enter_bind (fun _ _ h => h.warn _) ?_
  split
  · split
    · exact Keeps.refuse _ _
    · exact Keeps.giveUp _
  · refine (keeps_componentName _ _).bind fun _ name _ _ hname => ?_
    refine (keeps_claimComponent (fun _ _ _ h => h.claim _ _) _ _ _).bind fun _ _ _ _ _ => ?_
    refine Keeps.of_reads_bind (reads_response _ _) (fun _ _ h => h.warn _) fun _ part _ hpart => ?_
    exact keeps_numbers_register (leaf_of_yields_componentName hleaves hname)
      (numbers_of_yields_response hleaves hpart)

theorem keeps_numbers_securitySchemeComponent (hleaves : node.Leaves (Terms.numbers admits).leaf) :
    Keeps (Context.Numbers admits) (securitySchemeComponent unit symbol node) := by
  refine Keeps.enter_bind (fun _ _ h => h.warn _) ?_
  refine (keeps_componentName _ _).bind fun _ component _ _ hcomponent => ?_
  refine (keeps_required _ _).bind fun _ type _ _ htype => Keeps.look_bind fun _ _ => ?_
  refine (keeps_claimComponent (fun _ _ _ h => h.claim _ _) _ _ _).bind fun _ _ _ _ _ => ?_
  refine Keeps.look_bind fun scheme hscheme => Keeps.look_bind fun bearerFormat hformat =>
    Keeps.look_bind fun location hlocation => Keeps.look_bind fun name hname =>
    Keeps.look_bind fun description hdescription => keeps_numbers_alter fun model hmodel => ?_
  refine hmodel.registerScheme (leaf_of_yields_componentName hleaves hcomponent)
    (.of ?_ (List.forall_mem_nil _) (List.forall_mem_nil _))
  simp only [Part.data, List.forall_mem_cons]
  exact ⟨settled_of_stated (stated_of_yields_required hleaves htype),
    settled_of_given (given_of_text hleaves hscheme), settled_of_given (given_of_text hleaves hformat),
    settled_of_given (given_of_text hleaves hlocation), settled_of_given (given_of_text hleaves hname),
    settled_of_given (given_of_text hleaves hdescription), List.forall_mem_nil _⟩

theorem numbers_withProperty {name : Datum} {property part : Part} (hname : name.Numbers admits)
    (hproperty : property.Numbers admits) (h : part.Numbers admits) :
    (withProperty name property part).Numbers admits := by
  cases part with
  | schema facets properties items =>
      obtain ⟨data, names, nested⟩ := h
      simp only [Part.names, Part.nested, List.forall_mem_cons, List.forall_mem_append,
        List.forall_mem_map] at names nested
      have hentries := Datum.numbers_insertEntry hname hproperty
        fun entry hentry => ⟨names.2 entry hentry, nested.1 entry hentry⟩
      have hlisted : ∀ key ∈ facets.required :: (Datum.insertEntry name property properties).map (·.1),
          key.Numbers admits :=
        List.forall_mem_cons.mpr ⟨names.1, List.forall_mem_map.mpr fun entry hentry => (hentries entry hentry).1⟩
      have hinner : ∀ inner ∈ (Datum.insertEntry name property properties).map (·.2) ++ items.toList,
          inner.Numbers admits :=
        List.forall_mem_append.mpr
          ⟨List.forall_mem_map.mpr fun entry hentry => (hentries entry hentry).2, nested.2⟩
      unfold withProperty
      dsimp only
      split_ifs
      · refine .of ?_ hlisted hinner
        simp only [Part.data, List.forall_mem_cons] at data ⊢
        exact ⟨data.1, data.2.1, data.2.2.1, trivial, data.2.2.2.2⟩
      · exact .of data hlisted hinner
  | _ => exact h

theorem numbers_of_yields_withInferredType {part found : Part} {context after : Context}
    (hpart : part.Numbers admits) (h : Yields (withInferredType symbol part) context found after) :
    found.Numbers admits := by
  unfold withInferredType at h
  split at h
  · obtain ⟨data, names, nested⟩ := hpart
    simp only [yields_ite_iff, yields_bind_iff, yields_pure_iff] at h
    obtain ⟨-, rfl, -⟩ | ⟨-, declared, _, -, rfl, -⟩ := h
    · exact .of data names nested
    · have htype (type : Option String) : (type.elim .null Datum.text).settled.Numbers admits := by
        cases type <;> trivial
      simp only [Part.data, List.forall_mem_cons] at data
      obtain ⟨hname, htitle, hdescription, -, hformat, hsample, henum, hdefault, hminimum, hmaximum,
        hnullable, hrest⟩ := data
      split_ifs
      · refine .of ?_ names nested
        simp only [Part.data, List.forall_mem_cons]
        exact ⟨hname, htitle, hdescription, htype _, hformat, hsample, henum, hdefault, hminimum, hmaximum,
          trivial, hrest⟩
      · refine .of ?_ names nested
        simp only [Part.data, List.forall_mem_cons]
        exact ⟨hname, htitle, hdescription, htype _, hformat, hsample, henum, hdefault, hminimum, hmaximum,
          hnullable, hrest⟩
  · obtain ⟨rfl, -⟩ := yields_pure_iff.mp h
    exact hpart

theorem Context.Numbers.enclosingSchema {context : Context} (h : context.Numbers admits) (type : Datum) :
    (enclosingSchema context unit type).Numbers admits := by
  unfold Build.enclosingSchema
  dsimp only
  cases hfound : context.typeSchemas.find? fun entry => entry.1.1 == unit && entry.1.2.sameKey type with
  | none => trivial
  | some entry => exact h.typeNames entry (List.mem_of_find?_eq_some hfound)

theorem keeps_numbers_fieldProperty (hleaves : node.Leaves (Terms.numbers admits).leaf)
    (hsymbol : symbol.name.Numbers admits) :
    Keeps (Context.Numbers admits) (fieldProperty unit symbol node) := by
  refine Keeps.enter_bind (fun _ _ h => h.warn _) ?_
  refine Keeps.ite (fun _ => Keeps.refuse_bind) fun _ => Keeps.look_bind fun _ _ => ?_
  refine Keeps.get_bind fun context hcontext => ?_
  refine Keeps.ite (fun _ => Keeps.refuse_bind) fun _ => ?_
  dsimp only
  split
  · refine Keeps.look_bind fun given hgiven => ?_
    refine Keeps.ite (fun _ => Keeps.refuse_bind) fun _ => ?_
    refine Keeps.ite (fun _ => Keeps.refuse_bind) fun _ => ?_
    refine Keeps.of_reads_bind (reads_viewedSchema _ _) (fun _ _ h => h.warn _) fun _ part _ hpart => ?_
    refine Keeps.of_reads_bind (reads_withInferredType _ _) (fun _ _ h => h.warn _)
      fun _ property _ hproperty => ?_
    refine keeps_numbers_alter fun model hmodel => ?_
    have hname : (if given.isTruthy then given else symbol.name).Numbers admits := by
      split_ifs
      · exact numbers_of_given (given_of_text hleaves hgiven)
      · exact hsymbol
    unfold addProperty
    split
    · rename_i owner hfound
      obtain ⟨key, -, hmem⟩ := Datum.mem_of_lookup_eq_some hfound
      refine hmodel.register _ (hcontext.enclosingSchema _) (numbers_withProperty hname ?_
        (hmodel.components.entries .schemas _ hmem).2)
      exact numbers_of_yields_withInferredType (numbers_of_yields_viewedSchema hleaves hpart) hproperty
    · exact hmodel
  · exact Keeps.refuse _ _

theorem keeps_numbers_handler {tag : String} {handler : String → Symbol → Node → Step Unit}
    (hhandler : handler? tag = some handler) {placed : Placed} (h : placed.Leaves (Terms.numbers admits).leaf) :
    Keeps (Context.Numbers admits) (handler placed.unit placed.symbol placed.node) := by
  unfold handler? at hhandler
  split at hhandler
  · cases hhandler
    exact keeps_numbers_info h.node
  · cases hhandler
    exact keeps_numbers_contact h.node
  · cases hhandler
    exact keeps_numbers_license h.node
  · cases hhandler
    exact keeps_numbers_server h.node
  · cases hhandler
    exact keeps_numbers_apiTag h.node
  · cases hhandler
    exact keeps_numbers_schemaComponent h.node h.name
  · cases hhandler
    exact keeps_numbers_requestBodyComponent h.node
  · cases hhandler
    exact keeps_numbers_responseComponent h.node
  · cases hhandler
    exact keeps_numbers_securitySchemeComponent h.node
  · split_ifs at hhandler
    · cases hhandler
      exact keeps_numbers_operation h.node h.qualifiedName
    · cases hhandler
      exact keeps_numbers_parameterComponent h.node

theorem keeps_numbers_declare {placed : Placed} (h : placed.Leaves (Terms.numbers admits).leaf) :
    Keeps (Context.Numbers admits) (declare placed) := by
  refine Keeps.look_bind fun _ _ => ?_
  split
  · rename_i handler hfound
    obtain ⟨tag, -, hhandler⟩ := Option.bind_eq_some_iff.mp hfound
    exact keeps_numbers_handler hhandler h
  · exact Keeps.throw _

/-- Building starts without a number. -/
theorem Context.numbers_default : Context.Numbers admits {} where
  model :=
    { info := by
        refine .of ?_ (List.forall_mem_nil _) (List.forall_mem_nil _)
        simp [Part.data, Datum.settled, Datum.Numbers]
      servers := List.forall_mem_nil _
      tags := List.forall_mem_nil _
      paths := List.forall_mem_nil _
      components :=
        { entries := fun collection => by cases collection <;> exact List.forall_mem_nil _
          schemes := List.forall_mem_nil _ } }
  typeNames := List.forall_mem_nil _

/-- All numbers in the model that is built from units are those in their annotations. -/
theorem numbers_of_build {units : List AnnotatedUnit}
    (h : ∀ unit ∈ units, unit.Leaves (Terms.numbers admits).leaf) {context : Context}
    (hbuild : build units = .ok context) : context.Numbers admits := by
  obtain ⟨between, hdeclared, hproperties⟩ := Result.bind_eq_ok_iff.mp hbuild
  have hplaced : ∀ placed ∈ placedNodes units, placed.Leaves (Terms.numbers admits).leaf :=
    fun _ hmem => leaves_of_mem_placedNodes h hmem
  have hbetween : between.Numbers admits := by
    refine Result.of_foldlM_eq_ok (fun placed hmem before after hcontext hfold => ?_)
      Context.numbers_default hdeclared
    exact (keeps_numbers_declare (hplaced placed (List.mem_filter.mp hmem).1)).of_guarded
      (fun _ _ hcontext => hcontext.warn _) hcontext hfold
  refine Result.of_foldlM_eq_ok (fun placed hmem before after hcontext hfold => ?_) hbetween hproperties
  have hleaves := hplaced placed (List.mem_filter.mp hmem).1
  exact (keeps_numbers_fieldProperty hleaves.node hleaves.name).of_guarded
    (fun _ _ hcontext => hcontext.warn _) hcontext hfold

end Keeping

end Build

end DocCompiler
