import DocCompiler.Proofs.Document.Alias
import DocCompiler.Proofs.Document.Cycle

/-!
A model in form that is resolved without errors: every reference is bound to a component that is there,
and following aliases comes to an end.
-/

namespace DocCompiler

variable {terms : Terms}

namespace Reference

variable {components others : Components} {place : Collection} {link : Reference}

theorem Resolved.congr (h : link.Resolved components place)
    (hkeys : (others.entries place).map (·.1) = (components.entries place).map (·.1)) :
    link.Resolved others place := by
  refine h.imp_right fun hbound => ?_
  refine ⟨hbound.collection, hbound.name, hbound.binding, ?_⟩
  rw [Components.get?, Datum.isSome_lookup_congr hkeys]
  exact hbound.found

theorem Resolved.target?_congr (h : link.Resolved components place)
    (hentries : others.entries place = components.entries place) :
    others.target? link = components.target? link := by
  rcases h with ⟨-, hunbound⟩ | hbound
  · simp [Components.target?, hunbound]
  · simp only [Components.target?, hbound.binding, hbound.collection, Collection.ofDatum?_name,
      Components.get?, hentries]

end Reference

/-- Aliases lead where they did when the entries of their collection stay the same. -/
theorem Components.Leads.congr {components others : Components} {place : Collection}
    (hfits : components.Fits terms)
    (hlink : ∀ link, terms.link place link → link.Resolved components place)
    (hentries : others.entries place = components.entries place) {steps : Nat} {part target : Part}
    (hpart : part.IsEntry terms place) (h : components.Leads steps part target) :
    others.Leads steps part target := by
  have hnext : ∀ part : Part, part.IsEntry terms place → others.next? part = components.next? part := by
    intro part hpart
    cases part with
    | reference link =>
        exact (hlink link (Part.isEntry_reference_iff.mp hpart)).target?_congr hentries
    | _ => rfl
  induction h with
  | here h => exact .here ((hnext _ hpart).trans h)
  | @follow steps part next target h _ ih =>
      refine .follow ((hnext _ hpart).trans h) (ih ?_)
      cases part with
      | reference link =>
          rcases hlink link (Part.isEntry_reference_iff.mp hpart) with ⟨-, hunbound⟩ | hbound
          · simp [Components.next?, Components.target?, hunbound] at h
          · obtain ⟨name, found, -, hmem, htarget⟩ := Components.target?_of_bound hbound
            obtain rfl : found = next := Option.some.inj (htarget.symm.trans h)
            exact hfits.entries place _ hmem
      | _ => cases h

/-- Whether the aliases of a model come to an end. -/
def Components.AliasesEnd (components : Components) : Prop :=
  ∀ place, place ≠ .schemas → ∀ entry ∈ components.entries place,
    ∃ steps target, steps < components.size ∧ components.Leads steps entry.2 target

/-- Whether references are resolved depends on the names of the components alone. -/
theorem Model.Fits.congr_keys {components others : Components} {model : Model}
    (h : model.Fits (terms.withLink (Reference.Resolved components)))
    (hkeys : ∀ place, (others.entries place).map (·.1) = (components.entries place).map (·.1)) :
    model.Fits (terms.withLink (Reference.Resolved others)) :=
  h.relink (fun place link _ (hlink : link.Resolved components place) => hlink.congr (hkeys place))
    h.all_inForm

/-- A model in form whose references are bound, with aliases that come to an end. -/
structure Model.Resolved (terms : Terms) (model : Model) : Prop where
  fits : model.Fits (terms.withLink (Reference.Resolved model.components))
  linked : model.linked = model.components
  aliasesEnd : model.components.AliasesEnd

section Resolving

variable {model : Model} (h : model.Fits terms)
  (hfresh : ∀ place link, terms.link place link → link.Fresh place)

include h

theorem Model.Fits.keys_bindReferences (place : Collection) :
    (model.bindReferences.components.entries place).map (·.1) =
      (model.components.entries place).map (·.1) := by
  have hcomponents : model.bindReferences.components =
      model.components.mapReferences (m := Id) fun link => link.bind model.components := by
    rw [Model.bindReferences, h.mapReferences_id]
  rw [hcomponents, Components.entries_mapReferences, Part.mapRegistry, List.map_map]
  rfl

include hfresh

/-- Binding the references of a model that have no errors resolves them. -/
theorem Model.Fits.bindReferences {errors : List Diagnostic}
    (herrors : model.referenceErrors = .ok errors)
    (hnone : ∀ error ∈ errors, error.severity ≠ .error) :
    model.bindReferences.Fits
      (terms.withLink (Reference.Resolved model.bindReferences.components)) := by
  have hright : model.Fits (terms.withLink fun place link =>
      link.Fresh place ∧ ∃ path, link.error? model.components path = .ok none) := by
    refine h.relink (fun place link herror hlink => ⟨hfresh place link hlink, ?_⟩)
      (Model.all_of_referenceErrors herrors hnone)
    exact herror link rfl
  have hbound : model.bindReferences.Fits (terms.withLink (Reference.Resolved model.components)) :=
    hright.mapReferences fun place link hlink => Reference.resolved_bind hlink.1 hlink.2.choose_spec
  exact hbound.congr_keys h.keys_bindReferences

/-- Resolving a model in form without an error resolves it. -/
theorem Model.Fits.resolved {resolved : Model} {diagnostics : List Diagnostic}
    (hresolve : model.resolve = (resolved, .ok diagnostics))
    (hclean : ∀ diagnostic ∈ diagnostics, diagnostic.severity ≠ .error) :
    resolved.Resolved terms ∧ resolved.info = model.info ∧ resolved.servers = model.servers ∧
      resolved.tags = model.tags := by
  unfold Model.resolve at hresolve
  split at hresolve
  · cases hresolve
  · rename_i errors herrors
    dsimp only at hresolve
    split at hresolve
    · cases hresolve
    · rename_i cycles hcycles
      obtain ⟨rfl, hdiagnostics⟩ := Prod.mk.inj hresolve
      obtain rfl := Except.ok.inj hdiagnostics
      have hbound := h.bindReferences hfresh herrors fun error herror =>
        hclean error (List.mem_append_left _ herror)
      have hmarked := Components.marked_markCycles hbound.components
        (fun link key hlink hkey => Reference.key?_of_resolved hlink hkey)
        (fun link hlink => Reference.resolved_recursive hlink)
      have hmodel : Model.Fits (terms.withLink (Reference.Resolved model.bindReferences.components))
          { model.bindReferences with
            components := model.bindReferences.components.markCycles
            linked := model.bindReferences.components.markCycles } :=
        { hbound with components := hmarked.fits }
      have hinfo : model.bindReferences.info = model.info := by
        rw [Model.bindReferences, h.mapReferences_id]
      have hservers : model.bindReferences.servers = model.servers := by
        rw [Model.bindReferences, h.mapReferences_id]
      have htags : model.bindReferences.tags = model.tags := by
        rw [Model.bindReferences, h.mapReferences_id]
      refine ⟨⟨hmodel.congr_keys hmarked.keys, rfl, fun place hplace entry hentry => ?_⟩,
        hinfo, hservers, htags⟩
      · have hentries := hmarked.others place hplace
        replace hentry : entry ∈ model.bindReferences.components.entries place := hentries ▸ hentry
        obtain ⟨steps, target, hsteps, hleads⟩ :=
          Components.leads_of_aliasErrors hbound.components (fun _ _ hlink => hlink) hcycles
            (fun error herror => hclean error (List.mem_append_right _ herror)) hplace hentry
        refine ⟨steps, target, hmarked.size ▸ hsteps, ?_⟩
        exact hleads.congr hbound.components (fun link hlink => hlink) hentries
          (hbound.components.entries place entry hentry)

end Resolving

end DocCompiler
