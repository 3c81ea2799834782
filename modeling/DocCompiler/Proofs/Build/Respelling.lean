import DocCompiler.Proofs.Build.Spelling
import DocCompiler.Proofs.Document.Accept

/-!
Nesting annotations as children or in attributes comes to the same document.
-/

namespace DocCompiler.Build

open Annotation

section Steps

variable {α β : Type}

theorem look_bind_congr {result : Except Stop α} {next following : α → Step β}
    (h : ∀ value, result = .ok value → next value = following value) :
    look result >>= next = look result >>= following := by
  cases result with
  | ok value =>
      change next value = following value
      exact h value rfl
  | error stop => cases stop <;> rfl

section Nodes

variable {f : Node → Step β} {nodes : List Node} (h : ∀ node ∈ nodes, f node.respell = f node)

include h

theorem mapM_respell : (nodes.map Node.respell).mapM f = nodes.mapM f := by
  induction nodes with
  | nil => rfl
  | cons node rest ih =>
      obtain ⟨hnode, hrest⟩ := List.forall_mem_cons.mp h
      rw [List.map_cons, List.mapM_cons, List.mapM_cons, hnode, ih hrest]

theorem head?_mapM_respell : (nodes.map Node.respell).head?.mapM f = nodes.head?.mapM f := by
  cases nodes with
  | nil => rfl
  | cons node rest =>
      change (do return some (← f node.respell)) = (do return some (← f node))
      rw [h node (by simp)]

end Nodes

theorem forM_respell {f : Node → Step Unit} {nodes : List Node}
    (h : ∀ node ∈ nodes, f node.respell = f node) : (nodes.map Node.respell).forM f = nodes.forM f := by
  induction nodes with
  | nil => rfl
  | cons node rest ih =>
      obtain ⟨hnode, hrest⟩ := List.forall_mem_cons.mp h
      change (f node.respell >>= fun _ => (rest.map Node.respell).forM f) = f node >>= fun _ => rest.forM f
      rw [hnode, ih hrest]

/-- A step that may be refused goes on alike if what follows does. -/
theorem refuseIf_congr {condition : Prop} [Decidable condition] {refused : Step Unit}
    {next following : Unit → Step β} (h : ∀ value, next value = following value) :
    (if condition then refused >>= next else next ()) =
      if condition then refused >>= following else following () := by
  rw [funext h]

theorem enter_respell_bind {unit : String} {node : Node} {next : View → Step β}
    (h : next (View.of unit node).respell = next (View.of unit node)) :
    enter unit node.respell >>= next = enter unit node >>= next := by
  have henter (node : Node) : enter unit node >>= next =
      look (View.of unit node).warnings >>= fun warnings =>
        (modify fun context => { context with diagnostics := context.diagnostics ++ warnings }) >>= fun _ =>
          next (View.of unit node) := by
    simp only [enter, bind_assoc, pure_bind]
  rw [henter, henter, View.of_respell, View.warnings_respell, h]

variable {view : View} (h : view.node.Respellable)

include h

theorem look_nested_bind {slot : Slot} (hslot : slot ∈ slotsOf view.node.tag)
    {next following : List Node → Step β}
    (hnext : ∀ nodes, (∀ node ∈ nodes, node.Respellable ∧ node.tag.isAmong slot.2 = true) →
      next (nodes.map Node.respell) = following nodes) :
    look (view.respell.nested slot.2 (some slot.1)) >>= next =
      look (view.nested slot.2 (some slot.1)) >>= following := by
  rw [View.nested_respell h hslot]
  cases hnodes : view.nested slot.2 (some slot.1) with
  | error stop => cases stop <;> rfl
  | ok nodes =>
      change next (nodes.map Node.respell) = following nodes
      exact hnext nodes (View.respellable_of_nested h hnodes)

theorem look_checkChildren_bind {tags : List String} {next : Unit → Step β}
    (htags : ∀ slot ∈ slotsOf view.node.tag, ∀ tag ∈ slot.2, tag ∈ tags) :
    look (view.checkChildren tags) >>= next = next () := by
  have hchildren : view.checkChildren tags = .ok () := by
    apply View.checkChildren_eq
    intro child hchild
    obtain ⟨slot, hslot, hamong⟩ := h.taken child hchild
    obtain ⟨name, hname, htag⟩ := Datum.isAmong_iff.mp hamong
    exact Datum.isAmong_iff.mpr ⟨name, htags slot hslot name hname, htag⟩
  rw [hchildren]
  rfl

omit h in
theorem look_checkChildren_respell_bind {tags : List String} {next : Unit → Step β} :
    look (view.respell.checkChildren tags) >>= next = next () := by
  rw [View.checkChildren_respell]
  rfl

theorem orReference_respell (href : ∀ slot ∈ slotsOf view.node.tag, slot.1 ≠ "ref")
    {expected : Collection} {inline respelled : Step Part} (hinline : respelled = inline) :
    orReference view.respell expected respelled = orReference view expected inline := by
  rw [orReference, orReference, View.text_respell href, hinline]
  refine look_bind_congr fun raw hraw => ?_
  cases hnull : raw.isNull with
  | true => rfl
  | false =>
      -- A reference has no children, so there are none that the other spelling could hide.
      have hchildren : view.node.children = [] := by
        refine h.ref.resolve_right fun habsent => ?_
        rw [View.text, View.leaf, View.get?_eq_none_of_isAbsent habsent] at hraw
        obtain rfl := Except.ok.inj hraw
        cases hnull
      have hchecked : view.checkChildren [] = .ok () := by
        rw [View.checkChildren, hchildren]
        rfl
      rw [View.checkChildren_respell, hchecked]
      rfl

end Steps

theorem slotsOf_eq {tag : Datum} {tags : List String} {slots : List Slot} (h : tag.isAmong tags = true)
    (htags : ∀ name ∈ tags, tagSlots name = slots) : slotsOf tag = slots := by
  obtain ⟨name, hname, rfl⟩ := Datum.isAmong_iff.mp h
  exact htags name hname

theorem slot_ne {tag : Datum} {slots : List Slot} {name : String} (hslots : slotsOf tag = slots)
    (hname : name ∉ slots.map (·.1)) : ∀ slot ∈ slotsOf tag, slot.1 ≠ name := by
  rw [hslots]
  rintro slot hslot rfl
  exact hname (List.mem_map_of_mem hslot)

section Schemas

/-- The attributes in which schemas take nested ones. -/
def schemaSlots : List Slot :=
  [("properties", ["Property"]), ("items", ["Items"])]

variable {view : View}

theorem requireArray_respell (view : View) (enum : Datum) :
    requireArray view.respell enum = requireArray view enum := by
  cases enum <;> simp [requireArray, refuse]

theorem facets_respell (hslots : slotsOf view.node.tag = schemaSlots) (hasProperties hasItems : Bool) :
    facets view.respell hasProperties hasItems = facets view hasProperties hasItems := by
  simp (disch := exact slot_ne hslots (by decide)) only [facets, View.text_respell, View.literal_respell,
    View.texts_respell, View.number_respell, View.flag_respell, View.place_respell, requireArray_respell]

theorem propertyName_respell (unit : String) {node : Node} (hslots : slotsOf node.tag = schemaSlots) :
    propertyName unit node.respell = propertyName unit node := by
  have hget := Node.get?_respell_of_ne (slot_ne hslots (show "property" ∉ schemaSlots.map (·.1) by decide))
  rw [propertyName, propertyName, hget, placeOf, placeOf, Node.line_respell, Node.column_respell]
  cases node.get? "property" with
  | none => rfl
  | some value =>
      cases value with
      | leaf kind data => cases kind <;> rfl
      | _ => rfl

theorem properties_respell (unit : String) {schema : Node → Step Part} {nodes : List Node}
    (h : ∀ node ∈ nodes, slotsOf node.tag = schemaSlots ∧ schema node.respell = schema node)
    (done : Registry) :
    properties unit view.respell schema (nodes.map Node.respell) done =
      properties unit view schema nodes done := by
  induction nodes generalizing done with
  | nil => rfl
  | cons node rest ih =>
      obtain ⟨hnode, hrest⟩ := List.forall_mem_cons.mp h
      rw [List.map_cons, properties, properties, propertyName_respell unit hnode.1]
      refine bind_congr fun name => bind_congr fun _ => ?_
      simp only [View.tag_respell, hnode.2, ih hrest]
      rfl

theorem schemaBody_respell (unit : String) (h : view.node.Respellable)
    (hslots : slotsOf view.node.tag = schemaSlots) {nested : Node → Step Part}
    (hnested : ∀ node : Node, node.Respellable → slotsOf node.tag = schemaSlots →
      nested node.respell = nested node) :
    schemaBody unit nested view.respell = schemaBody unit nested view := by
  unfold schemaBody
  have hproperties : ("properties", ["Property"]) ∈ slotsOf view.node.tag := by
    rw [hslots]
    simp [schemaSlots]
  have hitems : ("items", ["Items"]) ∈ slotsOf view.node.tag := by
    rw [hslots]
    simp [schemaSlots]
  refine look_nested_bind h hproperties fun children hchildren => ?_
  have hschemas (node : Node) (hnode : node ∈ children) :
      slotsOf node.tag = schemaSlots ∧ nested node.respell = nested node := by
    obtain ⟨hrespellable, hamong⟩ := hchildren node hnode
    have htag : slotsOf node.tag = schemaSlots := slotsOf_eq hamong (by decide)
    exact ⟨htag, hnested node hrespellable htag⟩
  rw [properties_respell unit hschemas]
  refine bind_congr fun properties => look_nested_bind h hitems fun items hitems => ?_
  have hfirst : (items.map Node.respell).head?.mapM nested = items.head?.mapM nested :=
    head?_mapM_respell fun node hnode => by
      obtain ⟨hrespellable, hamong⟩ := hitems node hnode
      exact hnested node hrespellable (slotsOf_eq hamong (by decide))
  rw [look_checkChildren_respell_bind, look_checkChildren_bind h (by rw [hslots]; decide)]
  simp only [List.length_map, View.tag_respell, hfirst, facets_respell hslots]
  rfl

theorem schemaOf_respell (unit : String) (depth : Nat) {view : View} (h : view.node.Respellable)
    (hslots : slotsOf view.node.tag = schemaSlots) :
    schemaOf unit depth view.respell = schemaOf unit depth view := by
  induction depth generalizing view with
  | zero =>
      exact orReference_respell h (slot_ne hslots (by decide))
        (schemaBody_respell unit h hslots fun _ _ _ => rfl)
  | succ depth ih =>
      refine orReference_respell h (slot_ne hslots (by decide))
        (schemaBody_respell unit h hslots fun node hnode htag => ?_)
      exact enter_respell_bind (ih hnode htag)

theorem viewedSchema_respell (unit : String) (h : view.node.Respellable)
    (hslots : slotsOf view.node.tag = schemaSlots) :
    viewedSchema unit view.respell = viewedSchema unit view := by
  have hheight : view.respell.node.height = view.node.height :=
    Node.height_respell view.node (Node.isRespellable_iff.mpr h)
  rw [viewedSchema, viewedSchema, hheight, schemaOf_respell unit _ h hslots]

theorem schema_respell (unit : String) {node : Node} (h : node.Respellable)
    (hslots : slotsOf node.tag = schemaSlots) : schema unit node.respell = schema unit node :=
  enter_respell_bind (viewedSchema_respell unit h hslots)

end Schemas

section Contents

variable {view : View}

/-- The schemas of a media type or a parameter are the same. -/
theorem head?_mapM_schema_respell (unit : String) {nodes : List Node}
    (h : ∀ node ∈ nodes, node.Respellable ∧ node.tag.isAmong ["Schema"] = true) :
    (nodes.map Node.respell).head?.mapM (schema unit) = nodes.head?.mapM (schema unit) :=
  head?_mapM_respell fun node hnode =>
    schema_respell unit (h node hnode).1 (slotsOf_eq (h node hnode).2 (by decide))

theorem mediaType_respell (unit : String) {node : Node} (h : node.Respellable)
    (htag : node.tag.isAmong contentNames = true) : mediaType unit node.respell = mediaType unit node := by
  rw [mediaType, mediaType, Node.tag_respell]
  obtain ⟨name, hname, htext⟩ := Datum.isAmong_iff.mp htag
  rcases List.mem_cons.mp hname with rfl | hcontent
  · have hslots : slotsOf node.tag = [("schema", ["Schema"])] := by
      rw [htext]
      rfl
    have hlookup : contentTags.lookup node.tag.display = none := by
      rw [htext]
      rfl
    have hfree {name : String} (hname : name ≠ "schema") : ∀ slot ∈ slotsOf node.tag, slot.1 ≠ name := by
      rw [hslots]
      simpa [eq_comm] using hname
    rw [hlookup]
    refine enter_respell_bind ?_
    have hview : (View.of unit node).node.Respellable := h
    rw [View.text_respell (hfree (by decide)), View.literal_respell (hfree (by decide)), View.tag_respell]
    refine bind_congr fun type => refuseIf_congr fun _ => ?_
    have hslot : ("schema", ["Schema"]) ∈ slotsOf (View.of unit node).node.tag := by
      simp [View.of, hslots]
    refine look_nested_bind hview hslot fun schemas hschemas => ?_
    rw [look_checkChildren_respell_bind, look_checkChildren_bind hview (by simp [View.of, hslots]),
      head?_mapM_schema_respell unit hschemas]
  · have hschema : ∀ name ∈ contentTags.map (·.1),
        tagSlots name = schemaSlots ∧ (contentTags.lookup name).isSome = true := by
      decide
    obtain ⟨hslots, hlookup⟩ := hschema name hcontent
    obtain ⟨type, htype⟩ := Option.isSome_iff_exists.mp hlookup
    have hsame : contentTags.lookup node.tag.display = some type := by
      rw [htext]
      exact htype
    rw [hsame]
    dsimp only
    rw [schema_respell unit h (by rw [htext]; exact hslots)]

theorem contents_respell (unit : String) {nodes : List Node}
    (h : ∀ node ∈ nodes, node.Respellable ∧ node.tag.isAmong contentNames = true) (done : Registry) :
    contents unit view.respell (nodes.map Node.respell) done = contents unit view nodes done := by
  induction nodes generalizing done with
  | nil => rfl
  | cons node rest ih =>
      obtain ⟨hnode, hrest⟩ := List.forall_mem_cons.mp h
      rw [List.map_cons, contents, contents, mediaType_respell unit hnode.1 hnode.2]
      simp only [ih hrest]
      rfl

/-- The attribute in which bodies and responses take content. -/
def contentSlots : List Slot :=
  [("content", contentNames)]

theorem content_respell (unit : String) (h : view.node.Respellable)
    (hslots : slotsOf view.node.tag = contentSlots) : content unit view.respell = content unit view := by
  have hslot : ("content", contentNames) ∈ slotsOf view.node.tag := by
    simp [hslots, contentSlots]
  refine look_nested_bind h hslot fun children hchildren => ?_
  rw [contents_respell unit hchildren]
  refine bind_congr fun content => ?_
  rw [look_checkChildren_respell_bind, look_checkChildren_bind h (by simp [hslots, contentSlots])]

theorem requestBody_respell (unit : String) (h : view.node.Respellable)
    (hslots : slotsOf view.node.tag = contentSlots) :
    requestBody unit view.respell = requestBody unit view := by
  refine orReference_respell h (slot_ne hslots (by decide)) ?_
  simp (disch := exact slot_ne hslots (by decide)) only [View.text_respell,
    View.flag_respell, View.place_respell, content_respell unit h hslots]

theorem response_respell (unit : String) (h : view.node.Respellable)
    (hslots : slotsOf view.node.tag = contentSlots) :
    response unit view.respell = response unit view := by
  refine orReference_respell h (slot_ne hslots (by decide)) ?_
  simp (disch := exact slot_ne hslots (by decide)) only [View.text_respell,
    View.place_respell, content_respell unit h hslots]

end Contents

section Parameters

variable {view : View}

/-- The attribute in which parameters take schemas. -/
def parameterSlots : List Slot :=
  [("schema", ["Schema"])]

theorem parameterLocation_respell (hslots : slotsOf view.node.tag = parameterSlots) :
    parameterLocation view.respell = parameterLocation view := by
  rw [parameterLocation, parameterLocation, View.tag_respell,
    View.text_respell (slot_ne hslots (by decide))]

theorem parameterBody_respell (unit : String) (h : view.node.Respellable)
    (hslots : slotsOf view.node.tag = parameterSlots) :
    parameterBody unit view.respell = parameterBody unit view := by
  have hslot : ("schema", ["Schema"]) ∈ slotsOf view.node.tag := by
    simp [hslots, parameterSlots]
  rw [parameterBody, parameterBody, parameterLocation_respell hslots]
  refine bind_congr fun location => look_nested_bind h hslot fun schemas hschemas => ?_
  rw [look_checkChildren_respell_bind, look_checkChildren_bind h (by simp [hslots, parameterSlots])]
  simp (disch := exact slot_ne hslots (by decide)) only [View.text_respell,
    View.flag_respell, View.literal_respell, View.place_respell, View.tag_respell, List.length_map,
    head?_mapM_schema_respell unit hschemas]
  rfl

theorem parameter_respell (unit : String) (h : view.node.Respellable)
    (hslots : slotsOf view.node.tag = parameterSlots) :
    parameter unit view.respell = parameter unit view :=
  orReference_respell h (slot_ne hslots (by decide))
    (parameterBody_respell unit h hslots)

end Parameters

section Declarations

variable (unit : String) (symbol : Symbol) {node : Node}

theorem requireGlobal_respell (view : View) :
    requireGlobal view.respell symbol = requireGlobal view symbol := by
  simp only [requireGlobal, View.tag_respell]
  rfl

theorem required_respell {view : View} {name : String}
    (hname : ∀ slot ∈ slotsOf view.node.tag, slot.1 ≠ name) :
    required view.respell name = required view name := by
  simp only [required, View.text_respell hname, View.tag_respell]
  rfl

theorem componentName_respell {view : View} {name : String}
    (hname : ∀ slot ∈ slotsOf view.node.tag, slot.1 ≠ name) :
    componentName view.respell name = componentName view name := by
  simp only [componentName, View.text_respell hname, View.tag_respell]
  rfl

theorem enterGlobal_respell_bind {β : Type} {tag : String} {next : View → Step β}
    (h : next (View.of unit node).respell = next (View.of unit node)) :
    enterGlobal unit symbol node.respell tag >>= next = enterGlobal unit symbol node tag >>= next := by
  have henter (node : Node) : enterGlobal unit symbol node tag >>= next =
      enter unit node >>= fun view => requireGlobal view symbol >>= fun _ =>
        claim view (.global tag) >>= fun _ => next view := by
    simp only [enterGlobal, bind_assoc, pure_bind]
  rw [henter, henter]
  refine enter_respell_bind ?_
  rw [requireGlobal_respell, h]
  rfl

theorem contact_respell (hslots : slotsOf node.tag = []) :
    contact unit symbol node.respell = contact unit symbol node := by
  have hview : slotsOf (View.of unit node).node.tag = [] := hslots
  refine enterGlobal_respell_bind unit symbol ?_
  simp (disch := exact slot_ne hview (by decide)) only [View.text_respell]

theorem license_respell (hslots : slotsOf node.tag = []) :
    license unit symbol node.respell = license unit symbol node := by
  have hview : slotsOf (View.of unit node).node.tag = [] := hslots
  refine enterGlobal_respell_bind unit symbol ?_
  simp (disch := exact slot_ne hview (by decide)) only [View.text_respell]

theorem server_respell (hslots : slotsOf node.tag = []) :
    server unit symbol node.respell = server unit symbol node := by
  have hview : slotsOf (View.of unit node).node.tag = [] := hslots
  refine enter_respell_bind ?_
  simp (disch := exact slot_ne hview (by decide)) only [requireGlobal_respell, required_respell,
    View.text_respell]
  rfl

theorem apiTag_respell (hslots : slotsOf node.tag = []) :
    apiTag unit symbol node.respell = apiTag unit symbol node := by
  have hview : slotsOf (View.of unit node).node.tag = [] := hslots
  refine enter_respell_bind ?_
  simp (disch := exact slot_ne hview (by decide)) only [requireGlobal_respell, required_respell,
    View.text_respell]
  rfl

/-- The attributes in which general information takes a contact and a licence. -/
def infoSlots : List Slot :=
  [("contact", ["Contact"]), ("license", ["License"])]

theorem info_respell (h : node.Respellable) (hslots : slotsOf node.tag = infoSlots) :
    info unit symbol node.respell = info unit symbol node := by
  have hview : slotsOf (View.of unit node).node.tag = infoSlots := hslots
  have hnode : (View.of unit node).node.Respellable := h
  have hcontact : ("contact", ["Contact"]) ∈ slotsOf (View.of unit node).node.tag := by
    simp [hview, infoSlots]
  have hlicense : ("license", ["License"]) ∈ slotsOf (View.of unit node).node.tag := by
    simp [hview, infoSlots]
  refine enterGlobal_respell_bind unit symbol ?_
  simp (disch := exact slot_ne hview (by decide)) only [View.text_respell,
    View.textOrNumber_respell, View.place_respell]
  refine bind_congr fun _ => bind_congr fun _ => bind_congr fun _ => bind_congr fun _ => ?_
  refine bind_congr fun _ => bind_congr fun _ => bind_congr fun _ => bind_congr fun _ => ?_
  refine look_nested_bind hnode hcontact fun contacts hcontacts => ?_
  refine look_nested_bind hnode hlicense fun licenses hlicenses => ?_
  have hcontacts : (contacts.map Node.respell).forM (fun child => attempt (contact unit symbol child)) =
      contacts.forM fun child => attempt (contact unit symbol child) :=
    forM_respell fun child hchild => by
      rw [contact_respell unit symbol (slotsOf_eq (hcontacts child hchild).2 (by decide))]
  have hlicenses : (licenses.map Node.respell).forM (fun child => attempt (license unit symbol child)) =
      licenses.forM fun child => attempt (license unit symbol child) :=
    forM_respell fun child hchild => by
      rw [license_respell unit symbol (slotsOf_eq (hlicenses child hchild).2 (by decide))]
  rw [look_checkChildren_respell_bind,
    look_checkChildren_bind hnode (by simp [hview, infoSlots]), hcontacts, hlicenses]

/-- The attributes in which operations take nested annotations. -/
def operationSlots : List Slot :=
  [("parameters", parameterTags), ("requestBody", ["RequestBody"]), ("responses", ["Response"])]

theorem statusResponse_respell (h : node.Respellable) (hslots : slotsOf node.tag = contentSlots) :
    statusResponse unit node.respell = statusResponse unit node := by
  have hview : slotsOf (View.of unit node).node.tag = contentSlots := hslots
  have hnode : (View.of unit node).node.Respellable := h
  refine enter_respell_bind ?_
  rw [View.textOrNumber_respell (slot_ne hview (by decide)), response_respell unit hnode hview]
  rfl

theorem statusResponses_respell (label : String) {nodes : List Node}
    (h : ∀ node ∈ nodes, node.Respellable ∧ node.tag.isAmong ["Response"] = true) (done : Registry) :
    statusResponses unit label (nodes.map Node.respell) done =
      statusResponses unit label nodes done := by
  induction nodes generalizing done with
  | nil => rfl
  | cons node rest ih =>
      obtain ⟨⟨hnode, hamong⟩, hrest⟩ := List.forall_mem_cons.mp h
      have hslots : slotsOf node.tag = contentSlots := slotsOf_eq hamong (by decide)
      rw [List.map_cons, statusResponses, statusResponses, statusResponse_respell unit hnode hslots]
      simp only [ih hrest, placeOf, Node.line_respell, Node.column_respell]

theorem parameterChild_respell (h : node.Respellable ∧ node.tag.isAmong parameterTags = true) :
    (do parameter unit (← enter unit node.respell)) = (do parameter unit (← enter unit node)) :=
  enter_respell_bind (parameter_respell unit h.1 (slotsOf_eq h.2 (by decide)))

theorem bodyChild_respell (h : node.Respellable ∧ node.tag.isAmong ["RequestBody"] = true) :
    (do requestBody unit (← enter unit node.respell)) = (do requestBody unit (← enter unit node)) :=
  enter_respell_bind (requestBody_respell unit h.1 (slotsOf_eq h.2 (by decide)))

theorem operation_respell (h : node.Respellable) (hslots : slotsOf node.tag = operationSlots) :
    operation unit symbol node.respell = operation unit symbol node := by
  have hview : slotsOf (View.of unit node).node.tag = operationSlots := hslots
  have hnode : (View.of unit node).node.Respellable := h
  refine enter_respell_bind ?_
  simp (disch := exact slot_ne hview (by decide)) only [View.text_respell, View.texts_respell,
    View.flag_respell, View.literal_respell, View.place_respell, View.tag_respell, required_respell]
  refine refuseIf_congr fun _ => bind_congr fun given => ?_
  refine bind_congr fun _ => bind_congr fun _ => bind_congr fun _ => ?_
  refine bind_congr fun _ => bind_congr fun _ => bind_congr fun _ => ?_
  have hparameters : ("parameters", parameterTags) ∈ slotsOf (View.of unit node).node.tag := by
    simp [hview, operationSlots]
  refine look_nested_bind hnode hparameters fun parameters hparameters => ?_
  rw [mapM_respell fun child hchild => parameterChild_respell unit (hparameters child hchild)]
  refine bind_congr fun _ => ?_
  have hbodies : ("requestBody", ["RequestBody"]) ∈ slotsOf (View.of unit node).node.tag := by
    simp [hview, operationSlots]
  refine look_nested_bind hnode hbodies fun bodies hbodies => ?_
  rw [List.length_map, head?_mapM_respell fun child hchild => bodyChild_respell unit (hbodies child hchild)]
  refine refuseIf_congr fun _ => bind_congr fun _ => ?_
  have hresponses : ("responses", ["Response"]) ∈ slotsOf (View.of unit node).node.tag := by
    simp [hview, operationSlots]
  refine look_nested_bind hnode hresponses fun responses hresponses => ?_
  rw [statusResponses_respell unit _ hresponses]
  refine bind_congr fun _ => ?_
  rw [look_checkChildren_respell_bind, look_checkChildren_bind hnode (by rw [hview]; decide)]
  rfl

theorem schemaComponent_respell (h : node.Respellable) (hslots : slotsOf node.tag = schemaSlots) :
    schemaComponent unit symbol node.respell = schemaComponent unit symbol node := by
  have hview : slotsOf (View.of unit node).node.tag = schemaSlots := hslots
  have hnode : (View.of unit node).node.Respellable := h
  refine enter_respell_bind ?_
  have hname : schemaName (View.of unit node).respell symbol = schemaName (View.of unit node) symbol := by
    simp (disch := exact slot_ne hview (by decide)) only [schemaName, View.text_respell,
      componentName_respell]
  rw [hname, viewedSchema_respell unit hnode hview]
  rfl

/-- A component that is read from what stands in slots is the same. -/
theorem component_respell (collection : Collection) {attr : String} {slots : List Slot}
    {read : View → Step Part} (hslots : slotsOf node.tag = slots) (hattr : attr ∉ slots.map (·.1))
    (hread : read (View.of unit node).respell = read (View.of unit node)) :
    (do
      let view ← enter unit node.respell
      let name ← componentName view attr
      claimComponent view collection.name name
      let part ← read view
      alter fun model => model.register collection name part) = (do
      let view ← enter unit node
      let name ← componentName view attr
      claimComponent view collection.name name
      let part ← read view
      alter fun model => model.register collection name part) := by
  have hview : slotsOf (View.of unit node).node.tag = slots := hslots
  refine enter_respell_bind ?_
  rw [componentName_respell (slot_ne hview hattr), hread]
  rfl

theorem parameterComponent_respell (h : node.Respellable) (hslots : slotsOf node.tag = parameterSlots) :
    parameterComponent unit symbol node.respell = parameterComponent unit symbol node :=
  component_respell unit .parameters hslots (by decide) (parameter_respell unit h hslots)

theorem requestBodyComponent_respell (h : node.Respellable) (hslots : slotsOf node.tag = contentSlots) :
    requestBodyComponent unit symbol node.respell = requestBodyComponent unit symbol node :=
  component_respell unit .requestBodies hslots (by decide) (requestBody_respell unit h hslots)

theorem responseComponent_respell (h : node.Respellable) (hslots : slotsOf node.tag = contentSlots) :
    responseComponent unit symbol node.respell = responseComponent unit symbol node := by
  have hdeclared := component_respell unit .responses hslots
    (show "response" ∉ contentSlots.map (·.1) by decide) (response_respell unit h hslots)
  rw [responseComponent, responseComponent, Node.get?_respell_of_ne (slot_ne hslots (by decide))]
  cases node.get? "response" with
  | none => exact hdeclared
  | some value =>
      cases value with
      | leaf kind data =>
          cases kind with
          | number => exact enter_respell_bind rfl
          | _ => exact hdeclared
      | _ => exact hdeclared

theorem securitySchemeComponent_respell (h : node.Respellable) (hslots : slotsOf node.tag = []) :
    securitySchemeComponent unit symbol node.respell = securitySchemeComponent unit symbol node := by
  have hview : slotsOf (View.of unit node).node.tag = [] := hslots
  have hnode : (View.of unit node).node.Respellable := h
  refine enter_respell_bind ?_
  simp (disch := exact slot_ne hview (by decide)) only [View.text_respell, View.place_respell,
    required_respell, componentName_respell]
  refine bind_congr fun _ => bind_congr fun _ => ?_
  rw [look_checkChildren_respell_bind, look_checkChildren_bind hnode (by simp [hview])]
  rfl

theorem fieldProperty_respell (h : node.Respellable) (hslots : slotsOf node.tag = schemaSlots) :
    fieldProperty unit symbol node.respell = fieldProperty unit symbol node := by
  have hview : slotsOf (View.of unit node).node.tag = schemaSlots := hslots
  have hnode : (View.of unit node).node.Respellable := h
  refine enter_respell_bind ?_
  rw [View.text_respell (slot_ne hview (by decide)), viewedSchema_respell unit hnode hview]
  rfl

/-- What is declared at the top level is the same. -/
theorem handler_respell {tag : String} {handler : String → Symbol → Node → Step Unit}
    (hhandler : handler? tag = some handler) (htag : node.tag = .text tag) (h : node.Respellable) :
    handler unit symbol node.respell = handler unit symbol node := by
  have hslots : slotsOf node.tag = tagSlots tag := by
    rw [htag]
    rfl
  unfold handler? at hhandler
  split at hhandler
  · cases hhandler
    exact info_respell unit symbol h hslots
  · cases hhandler
    exact contact_respell unit symbol hslots
  · cases hhandler
    exact license_respell unit symbol hslots
  · cases hhandler
    exact server_respell unit symbol hslots
  · cases hhandler
    exact apiTag_respell unit symbol hslots
  · cases hhandler
    exact schemaComponent_respell unit symbol h hslots
  · cases hhandler
    exact requestBodyComponent_respell unit symbol h hslots
  · cases hhandler
    exact responseComponent_respell unit symbol h hslots
  · cases hhandler
    exact securitySchemeComponent_respell unit symbol h hslots
  · have hamong {tags : List String} (hmem : tags.contains tag = true) : node.tag.isAmong tags = true := by
      rw [htag]
      exact hmem
    split_ifs at hhandler with hmethod hparameter
    · cases hhandler
      exact operation_respell unit symbol h (slotsOf_eq (hamong hmethod) (by decide))
    · cases hhandler
      exact parameterComponent_respell unit symbol h (slotsOf_eq (hamong hparameter) (by decide))

end Declarations

/-- A top-level annotation that is spelled without children. -/
def Placed.respell (placed : Placed) : Placed :=
  { placed with node := placed.node.respell }

theorem isProperty_respell (placed : Placed) : placed.respell.isProperty = placed.isProperty := by
  rw [Placed.isProperty, Placed.respell, Node.tag_respell, Placed.isProperty]

theorem filter_respell {test : Placed → Bool} (h : ∀ placed : Placed, test placed.respell = test placed)
    (nodes : List Placed) :
    (nodes.map Placed.respell).filter test = (nodes.filter test).map Placed.respell := by
  have htest : test ∘ Placed.respell = test := funext h
  rw [List.filter_map, htest]

theorem declare_respell {placed : Placed} (h : placed.node.Respellable) :
    declare placed.respell = declare placed := by
  have htag : placed.respell.node.tag = placed.node.tag := Node.tag_respell placed.node
  rw [declare, declare, htag]
  refine bind_congr fun _ => ?_
  cases hhandler : placed.node.tag.text?.bind handler? with
  | none =>
      change throw _ = throw _
      simp [Placed.respell, placeOf]
  | some handler =>
      obtain ⟨tag, htext, hhandler⟩ := Option.bind_eq_some_iff.mp hhandler
      have htag : placed.node.tag = .text tag := by
        cases hcase : placed.node.tag <;> simp_all [Datum.text?]
      exact handler_respell placed.unit placed.symbol hhandler htag h

theorem fold_respell {placed : Placed} (h : placed.node.Respellable) (context : Context) :
    fold context placed.respell = fold context placed := by
  rw [fold, fold, declare_respell h]

theorem foldProperty_respell {placed : Placed} (h : placed.node.Respellable)
    (hproperty : placed.isProperty = true) (context : Context) :
    foldProperty context placed.respell = foldProperty context placed := by
  have hslots : slotsOf placed.node.tag = schemaSlots := by
    rw [Datum.isText_iff.mp hproperty]
    rfl
  rw [foldProperty, foldProperty, ← fieldProperty_respell placed.unit placed.symbol h hslots]
  rfl

theorem placedNodes_respell (units : List AnnotatedUnit) :
    placedNodes (units.map AnnotatedUnit.respell) = (placedNodes units).map Placed.respell := by
  have hsort : (units.map AnnotatedUnit.respell).mergeSort
      (fun a b => decide (a.identity ≤ b.identity)) =
        (units.mergeSort fun a b => decide (a.identity ≤ b.identity)).map AnnotatedUnit.respell := by
    symm
    apply List.map_mergeSort
    intro _ _ _ _
    rfl
  rw [placedNodes, placedNodes, hsort]
  simp only [List.flatMap_map, List.map_flatMap, List.map_map, AnnotatedUnit.respell, Function.comp_def,
    Placed.respell]

theorem foldlM_respell {f : Context → Placed → Except ShapeError Context} {nodes : List Placed}
    (h : ∀ placed ∈ nodes, ∀ context, f context placed.respell = f context placed) (context : Context) :
    (nodes.map Placed.respell).foldlM f context = nodes.foldlM f context := by
  induction nodes generalizing context with
  | nil => rfl
  | cons placed rest ih =>
      obtain ⟨hplaced, hrest⟩ := List.forall_mem_cons.mp h
      rw [List.map_cons, List.foldlM_cons, List.foldlM_cons, hplaced]
      exact bind_congr fun after => ih hrest after

/-- Annotations nested as children and annotations nested in attributes come to the same document, with
the same diagnostics. -/
theorem build_respell {units : List AnnotatedUnit} (h : ∀ unit ∈ units, unit.isRespellable = true) :
    build (units.map AnnotatedUnit.respell) = build units := by
  have hnodes : ∀ placed ∈ placedNodes units, placed.node.Respellable := by
    intro placed hplaced
    obtain ⟨unit, hunit, hplaced⟩ := List.mem_flatMap.mp hplaced
    obtain ⟨block, hblock, hplaced⟩ := List.mem_flatMap.mp hplaced
    obtain ⟨node, hnode, rfl⟩ := List.mem_map.mp hplaced
    have hunit := h unit (List.mem_mergeSort.mp hunit)
    rw [AnnotatedUnit.isRespellable, List.all_eq_true] at hunit
    exact Node.isRespellable_iff.mp (List.all_eq_true.mp (hunit block hblock) node hnode)
  have hfold : ∀ placed ∈ (placedNodes units).filter (fun placed => !placed.isProperty), ∀ context,
      fold context placed.respell = fold context placed := by
    intro placed hplaced context
    exact fold_respell (hnodes placed (List.mem_filter.mp hplaced).1) context
  have hproperties : ∀ placed ∈ (placedNodes units).filter (fun placed => placed.isProperty), ∀ context,
      foldProperty context placed.respell = foldProperty context placed := by
    intro placed hplaced context
    obtain ⟨hmem, hproperty⟩ := List.mem_filter.mp hplaced
    exact foldProperty_respell (hnodes placed hmem) hproperty context
  calc build (units.map AnnotatedUnit.respell)
      = (do
          let context ← (((placedNodes units).map Placed.respell).filter (!·.isProperty)).foldlM fold {}
          (((placedNodes units).map Placed.respell).filter (·.isProperty)).foldlM foldProperty context) := by
        rw [build, placedNodes_respell]
    _ = build units := by
        rw [filter_respell fun placed => by rw [isProperty_respell], filter_respell isProperty_respell,
          foldlM_respell hfold]
        exact bind_congr fun context => foldlM_respell hproperties context

/-- Schemas, parameters and responses that are nested as children. -/
theorem build_respell_pets :
    (∀ unit ∈ Pets.units, unit.isRespellable = true) ∧
      build (Pets.units.map AnnotatedUnit.respell) = build Pets.units := by
  have h : ∀ unit ∈ Pets.units, unit.isRespellable = true := by
    decide
  exact ⟨h, build_respell h⟩

end DocCompiler.Build
