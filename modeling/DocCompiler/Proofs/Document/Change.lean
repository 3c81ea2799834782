import DocCompiler.Proofs.Document.Form

/-!
What changes a model keeps its form.
-/

namespace DocCompiler

variable {terms : Terms}

/-- Something of the kind is put under a key of the kind, or under one that is there. -/
private theorem forall_insertEntry {keys : Datum → Prop} {parts : Part → Prop} {name : Datum}
    {part : Part} {entries : Registry} (hkeys : ∀ entry ∈ entries, keys entry.1)
    (hparts : ∀ entry ∈ entries, parts entry.2)
    (hname : keys name ∨ (Datum.lookup name entries).isSome = true) (hpart : parts part) :
    ∀ entry ∈ Datum.insertEntry name part entries, keys entry.1 ∧ parts entry.2 := by
  intro entry hentry
  have hmember : entry.1 ∈ (Datum.insertEntry name part entries).map (·.1) :=
    List.mem_map_of_mem hentry
  refine ⟨?_, ?_⟩
  · cases hfound : Datum.lookup name entries with
    | some found =>
        rw [Datum.keys_insertEntry_of_lookup hfound] at hmember
        obtain ⟨old, hold, heq⟩ := List.mem_map.mp hmember
        exact heq ▸ hkeys old hold
    | none =>
        rw [Datum.insertEntry_of_lookup_eq_none hfound] at hentry
        rcases List.mem_append.mp hentry with hold | hlast
        · exact hkeys entry hold
        · obtain rfl : entry = (name, part) := by simpa using hlast
          exact hname.resolve_right (by simp [hfound])
  · rcases Datum.mem_insertEntry hentry with hold | ⟨hvalue, -⟩
    · exact hparts entry hold
    · exact hvalue ▸ hpart

namespace Components

theorem entries_put (components : Components) (collection other : Collection) (name : Datum)
    (part : Part) :
    (components.put collection name part).entries other =
      if collection = other then Datum.insertEntry name part (components.entries collection)
      else components.entries other := by
  cases collection <;> cases other <;> rfl

@[simp] theorem securitySchemes_put (components : Components) (collection : Collection)
    (name : Datum) (part : Part) :
    (components.put collection name part).securitySchemes = components.securitySchemes := by
  cases collection <;> rfl

theorem Fits.put {components : Components} (h : components.Fits terms) {collection : Collection}
    {name : Datum} {part : Part}
    (hname : terms.leaf .string name ∨ (components.get? collection name).isSome = true)
    (hpart : part.IsEntry terms collection) : (components.put collection name part).Fits terms where
  distinct other := by
    rw [entries_put]
    split_ifs
    · exact (h.distinct collection).insertEntry
    · exact h.distinct other
  named other := by
    rw [entries_put]
    split_ifs with heq
    · subst heq
      exact fun entry hentry =>
        (forall_insertEntry (h.named collection) (h.entries collection) hname hpart entry hentry).1
    · exact h.named other
  entries other := by
    rw [entries_put]
    split_ifs with heq
    · subst heq
      exact fun entry hentry =>
        (forall_insertEntry (h.named collection) (h.entries collection) hname hpart entry hentry).2
    · exact h.entries other
  schemes := by simpa using h.schemes
  distinctSchemes := by simpa using h.distinctSchemes
  namedSchemes := by simpa using h.namedSchemes

end Components

namespace Model

/-- What holds of a model before a change and after one that succeeds holds after the change. -/
theorem holds_change {holds : Model → Prop} {model : Model} (h : holds model)
    {changed : Except ModelError Model} (hchanged : ∀ found, changed = .ok found → holds found) :
    holds (model.change changed).1 := by
  unfold Model.change
  split
  · exact h
  · split
    · exact hchanged _ rfl
    · exact h

theorem Fits.change {model : Model} (h : model.Fits terms) {changed : Except ModelError Model}
    (hchanged : ∀ found, changed = .ok found → found.Fits terms) :
    (model.change changed).1.Fits terms :=
  holds_change h hchanged

theorem Fits.withServers {model : Model} (h : model.Fits terms) {servers : List Part}
    (hservers : ∀ part ∈ servers, ∃ server : Server, part = .server server ∧ server.Fits terms) :
    ({ model with servers } : Model).Fits terms :=
  { h with servers := hservers }

theorem Fits.addServer {model : Model} (h : model.Fits terms) {server : Server}
    (hserver : server.Fits terms) (first : Bool) :
    (model.addServer (.server server) first).1.Fits terms := by
  refine h.change fun found hfound => ?_
  obtain rfl := Except.ok.inj hfound
  refine h.withServers fun part hpart => ?_
  have hmem : part = .server server ∨ part ∈ model.servers := by
    cases first <;> simpa [or_comm] using hpart
  rcases hmem with rfl | hold
  · exact ⟨server, rfl, hserver⟩
  · exact h.servers part hold

theorem Fits.addTag {model : Model} (h : model.Fits terms) {tag : ApiTag} (htag : tag.Fits terms) :
    (model.addTag (.tag tag)).1.Fits terms := by
  refine h.change fun found hfound => ?_
  obtain rfl := Except.ok.inj hfound
  refine { h with tags := fun entry hentry => ?_, distinctTags := ?_ }
  · rcases OrderedMap.mem_put hentry with hold | rfl
    · exact h.tags entry hold
    · exact ⟨tag, rfl, htag, rfl⟩
  · exact OrderedMap.nodup_names_put h.distinctTags

theorem Fits.putEndpoint {model : Model} (h : model.Fits terms) {endpoint : Endpoint}
    (hendpoint : endpoint.Fits terms) :
    (model.putEndpoint endpoint.operation.path.display endpoint).Fits terms := by
  have hmethods : ∀ found ∈ (model.paths.get? endpoint.operation.path.display).getD [],
      found.2.Fits terms ∧ found.1 = found.2.operation.method ∧
        endpoint.operation.path.display = found.2.operation.path.display := by
    cases hget : model.paths.get? endpoint.operation.path.display with
    | none => simp
    | some methods => exact h.endpoints _ (OrderedMap.mem_of_get? hget)
  have hdistinct : Datum.Distinct ((model.paths.get? endpoint.operation.path.display).getD []) := by
    cases hget : model.paths.get? endpoint.operation.path.display with
    | none => exact List.Pairwise.nil
    | some methods => exact h.distinctMethods _ (OrderedMap.mem_of_get? hget)
  refine { h with endpoints := ?_, distinctMethods := ?_, distinctPaths := ?_ }
  · intro entry hentry found hfound
    rcases OrderedMap.mem_put hentry with hold | rfl
    · exact h.endpoints entry hold found hfound
    · rcases Datum.mem_insertEntry hfound with hold | ⟨hvalue, hkey | ⟨old, hold, heq, hsame⟩⟩
      · exact hmethods found hold
      · rw [hvalue, hkey]
        exact ⟨hendpoint, rfl, rfl⟩
      · rw [hvalue]
        obtain ⟨name, -, hname⟩ := hendpoint.operation.method
        rw [hname, Datum.sameKey_text] at hsame
        exact ⟨hendpoint, hsame.trans hname.symm, rfl⟩
  · intro entry hentry
    rcases OrderedMap.mem_put hentry with hold | rfl
    · exact h.distinctMethods entry hold
    · exact hdistinct.insertEntry
  · exact OrderedMap.nodup_names_put h.distinctPaths

theorem Fits.addOperation {model : Model} (h : model.Fits terms) {operation : Operation}
    {parameters : List Part} {body : Option Part} {responses : Registry}
    (hendpoint : Endpoint.Fits terms ⟨operation, parameters, body, responses⟩) :
    (model.addOperation (.operation operation parameters body responses)).1.Fits terms := by
  obtain ⟨name, -, hname⟩ := hendpoint.operation.method
  have hmethod : operation.method.isHashable = true := by
    rw [show operation.method = .text name from hname]
    rfl
  simp only [Model.addOperation, Part.endpoint?, hmethod, if_true]
  refine h.change fun found hfound => ?_
  obtain rfl := Except.ok.inj hfound
  exact h.putEndpoint hendpoint

theorem Fits.register {model : Model} (h : model.Fits terms) {collection : Collection}
    {name : Datum} {part : Part}
    (hname : terms.leaf .string name ∨ (model.components.get? collection name).isSome = true)
    (hpart : part.IsEntry terms collection) : (model.register collection name part).1.Fits terms := by
  refine h.change fun found hfound => ?_
  split at hfound
  · obtain rfl := Except.ok.inj hfound
    exact { h with components := h.components.put hname hpart }
  · cases hfound

theorem Fits.registerScheme {model : Model} (h : model.Fits terms) {name : Datum}
    {scheme : SecurityScheme} (hname : terms.leaf .string name) (hscheme : scheme.Fits terms) :
    (model.registerScheme name (.securityScheme scheme)).1.Fits terms := by
  refine h.change fun found hfound => ?_
  split at hfound
  · obtain rfl := Except.ok.inj hfound
    have hentries := @forall_insertEntry (terms.leaf .string)
      (fun part => ∃ scheme : SecurityScheme, part = .securityScheme scheme ∧ scheme.Fits terms) _ _ _
      h.components.namedSchemes h.components.schemes (.inl hname) ⟨scheme, rfl, hscheme⟩
    refine { h with components := ?_ }
    exact
      { distinct := fun collection => by
          have := h.components.distinct collection
          cases collection <;> exact this
        named := fun collection => by
          have := h.components.named collection
          cases collection <;> exact this
        entries := fun collection => by
          have := h.components.entries collection
          cases collection <;> exact this
        schemes := fun entry hentry => (hentries entry hentry).2
        distinctSchemes := h.components.distinctSchemes.insertEntry
        namedSchemes := fun entry hentry => (hentries entry hentry).1 }
  · cases hfound

theorem Fits.withInfo {model : Model} (h : model.Fits terms) {info : Part}
    (hinfo : info.IsInfo terms) : ({ model with info } : Model).Fits terms :=
  { h with info := hinfo }

theorem Fits.overrideInfo {model : Model} (h : model.Fits terms) (overrides : Overrides) :
    (model.overrideInfo overrides).Fits terms := by
  have hsettled : ∀ (text : Option String) (old : Datum), terms.Given .string old →
      terms.Given .string ((given? text).elim old .text) := by
    intro text old hold
    cases given? text with
    | none => exact hold
    | some value => exact .inr (Terms.stated_text value)
  unfold Model.overrideInfo
  split
  · rename_i info contact license hinfo
    have hform := h.info
    rw [hinfo] at hform
    obtain ⟨hvalue, hperson, hterms⟩ := hform
    refine h.withInfo ⟨?_, hperson, hterms⟩
    exact
      { hvalue with
        title := hsettled _ _ hvalue.title
        version := hsettled _ _ hvalue.version
        description := hsettled _ _ hvalue.description }
  · exact h

theorem Fits.applyOverrides {model : Model} (h : model.Fits terms) (overrides : Overrides) :
    (model.applyOverrides overrides).1.Fits terms := by
  have hinfo := h.overrideInfo overrides
  unfold Model.applyOverrides
  split
  · exact hinfo
  · dsimp only
    split
    · exact hinfo
    · refine Fits.addServer (hinfo.withServers fun part hpart => ?_) ?_ true
      · exact hinfo.servers part (List.mem_filter.mp hpart).1
      · exact ⟨Terms.stated_text _, Terms.given_null _⟩

theorem Fits.freeze {model : Model} (h : model.Fits terms) : model.freeze.Fits terms :=
  { h with }

end Model

end DocCompiler
