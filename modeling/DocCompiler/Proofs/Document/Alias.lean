import DocCompiler.Document.Rule
import DocCompiler.Proofs.Document.Resolve
import Mathlib.Data.List.Perm.Subperm

/-!
Following an alias comes to an end unless a cycle is found: the names on the way are distinct names of
one collection, of which there are fewer than the search looks at.
-/

namespace DocCompiler

namespace Components

/-- Following aliases from a part leads to a target in a number of steps. -/
inductive Leads (components : Components) : Nat → Part → Part → Prop
  | here {part : Part} (h : components.next? part = none) : Leads components 0 part part
  | follow {steps : Nat} {part next target : Part} (h : components.next? part = some next)
      (hnext : Leads components steps next target) : Leads components (steps + 1) part target

variable {terms : Terms} {components : Components} {place : Collection}

theorem Leads.target_eq {steps count : Nat} {part target other : Part}
    (h : components.Leads steps part target) (hother : components.Leads count part other) :
    target = other := by
  induction h generalizing count with
  | here hend =>
      cases hother with
      | here => rfl
      | follow hnext => cases hend.symm.trans hnext
  | follow hnext _ ih =>
      cases hother with
      | here hend => cases hend.symm.trans hnext
      | follow hfound hrest =>
          obtain rfl := Option.some.inj (hnext.symm.trans hfound)
          exact ih hrest

/-- With enough steps the rules find the target of an alias. -/
theorem Leads.dereference {steps fuel : Nat} {part target : Part}
    (h : components.Leads steps part target) (hfuel : steps ≤ fuel) :
    Rule.dereference components fuel part = target := by
  induction h generalizing fuel with
  | @here part hend =>
      cases fuel with
      | zero => rfl
      | succ fuel =>
          cases part with
          | reference link =>
              have htarget : components.target? link = none := hend
              simp only [Rule.dereference, htarget]
          | _ => rfl
  | @follow steps part next target hnext _ ih =>
      obtain ⟨fuel, rfl⟩ := Nat.exists_eq_add_one_of_ne_zero (by omega : fuel ≠ 0)
      cases part with
      | reference link =>
          have htarget : components.target? link = some next := hnext
          simp only [Rule.dereference, htarget]
          exact ih (by omega)
      | _ => cases hnext

theorem target?_of_bound {link : Reference} (h : link.Bound components place) :
    ∃ name next, link.name = .text name ∧ (.text name, next) ∈ components.entries place ∧
      components.target? link = some next := by
  obtain ⟨name, hname, -⟩ := h.name
  obtain ⟨next, hnext⟩ := Option.isSome_iff_exists.mp h.found
  obtain ⟨key, hkey, hmem⟩ := Datum.mem_of_lookup_eq_some hnext
  rw [hname, Datum.sameKey_text] at hkey
  refine ⟨name, next, hname, hkey ▸ hmem, ?_⟩
  rw [target?, h.binding, h.collection, Collection.ofDatum?_name]
  exact hnext

/-- A search that finds no cycle and does not run out has come to an end. -/
theorem leads_of_aliasCycle?_eq_none (hfits : components.Fits terms)
    (hlink : ∀ link, terms.link place link → link.Resolved components place) {fuel : Nat}
    {chain : List Datum} {last : Part} (hlast : last.IsEntry terms place)
    (hnodup : chain.Nodup) (hchain : chain ⊆ (components.entries place).map (·.1))
    (hfuel : (components.entries place).length < fuel + chain.length)
    (h : components.aliasCycle? fuel chain last = none) :
    ∃ steps target, components.Leads steps last target ∧
      steps + chain.length ≤ (components.entries place).length := by
  have hlength := (hnodup.subperm hchain).length_le
  rw [List.length_map] at hlength
  induction fuel generalizing chain last with
  | zero => omega
  | succ fuel ih =>
      cases last with
      | reference link =>
          rcases hlink link (Part.isEntry_reference_iff.mp hlast) with ⟨-, hunbound⟩ | hbound
          · refine ⟨0, _, .here ?_, by omega⟩
            simp [next?, target?, hunbound]
          · obtain ⟨name, next, hname, hmem, htarget⟩ := target?_of_bound hbound
            have hfollowing : (Part.reference link).following? = some name := by
              simp [Part.following?, Reference.isBound, hbound.binding, hname, Datum.display]
            simp only [aliasCycle?, hfollowing] at h
            have hnew : ¬ chain.any (·.isText name) = true := by
              intro hseen
              rw [if_pos hseen] at h
              cases h
            rw [if_neg hnew, show components.next? (.reference link) = some next from htarget] at h
            have hnodup' : (chain ++ [Datum.text name]).Nodup := by
              refine hnodup.append (List.nodup_singleton _) ?_
              rw [List.disjoint_singleton]
              intro hseen
              exact hnew (List.any_eq_true.mpr ⟨_, hseen, Datum.isText_iff.mpr rfl⟩)
            have hchain' : chain ++ [Datum.text name] ⊆ (components.entries place).map (·.1) := by
              refine List.append_subset.mpr ⟨hchain, ?_⟩
              exact List.cons_subset.mpr ⟨List.mem_map_of_mem hmem, List.nil_subset _⟩
            have hlength' := (hnodup'.subperm hchain').length_le
            rw [List.length_map] at hlength'
            have hcount : (chain ++ [Datum.text name]).length = chain.length + 1 := List.length_append
            obtain ⟨steps, target, hleads, hsteps⟩ :=
              ih (hfits.entries place _ hmem) hnodup' hchain' (by omega) h hlength'
            exact ⟨steps + 1, target, .follow htarget hleads, by omega⟩
      | _ => exact ⟨0, _, .here rfl, by omega⟩

theorem aliasCycle?_of_aliasCycles {entries : Registry} {found : List Diagnostic}
    (h : components.aliasCycles place [] entries = .ok found)
    (hnone : ∀ error ∈ found, error.severity ≠ .error) :
    ∀ entry ∈ entries, components.aliasCycle? (components.size + 2) [entry.1] entry.2 = none := by
  induction entries generalizing found with
  | nil => simp
  | cons entry rest ih =>
      rcases entry with ⟨name, part⟩
      rw [aliasCycles] at h
      split at h
      · rename_i hcycle
        rw [List.forall_mem_cons]
        exact ⟨hcycle, ih h hnone⟩
      · rename_i cycle following hcycle
        rw [if_neg (by simp)] at h
        dsimp only at h
        split at h
        · obtain ⟨later, -, hfound⟩ := Result.bind_eq_ok_iff.mp h
          rw [Result.pure_eq_ok_iff] at hfound
          exact absurd rfl (hnone _ (hfound ▸ List.mem_cons_self ..))
        · cases h

theorem length_entries_le_size (components : Components) (collection : Collection) :
    (components.entries collection).length ≤ components.size := by
  cases collection <;> simp only [entries, size] <;> omega

/-- Without an error of aliases all of them come to an end. -/
theorem leads_of_aliasErrors (hfits : components.Fits terms)
    (hlink : ∀ place link, terms.link place link → link.Resolved components place)
    {found : List Diagnostic} (h : components.aliasErrors = .ok found)
    (hnone : ∀ error ∈ found, error.severity ≠ .error) (hplace : place ≠ .schemas)
    {entry : Datum × Part} (hentry : entry ∈ components.entries place) :
    ∃ steps target, steps < components.size ∧ components.Leads steps entry.2 target := by
  obtain ⟨lists, hlists, hfound⟩ := Result.bind_eq_ok_iff.mp h
  rw [Result.pure_eq_ok_iff] at hfound
  have hmem : place ∈ [Collection.parameters, .requestBodies, .responses] := by
    cases place <;> simp_all
  obtain ⟨list, hlist, hcycles⟩ := Result.ok_of_mapM_eq_ok hlists hmem
  have hcycle := aliasCycle?_of_aliasCycles hcycles (fun error herror => hnone error (by
    rw [← hfound]
    exact List.mem_flatten.mpr ⟨list, hlist, herror⟩)) entry hentry
  have hsize := components.length_entries_le_size place
  obtain ⟨steps, target, hleads, hsteps⟩ :=
    leads_of_aliasCycle?_eq_none hfits (hlink place) (hfits.entries place entry hentry)
      (List.nodup_singleton _)
      (List.cons_subset.mpr ⟨List.mem_map_of_mem hentry, List.nil_subset _⟩)
      (by rw [List.length_singleton]; omega) hcycle
  rw [List.length_singleton] at hsteps
  exact ⟨steps, target, by omega, hleads⟩

end Components

end DocCompiler
