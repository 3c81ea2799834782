import DocCompiler.File.Path
import Mathlib.Data.List.Induction
import DocCompiler.File.Tree
import Mathlib.Data.List.Basic

/-!
Where paths lead in a tree of files. A name leads one level down and two dots lead one level up, so all that a
path leads through it has led to before. What is found in a tree after something was put or taken away, there
or elsewhere.
-/

namespace DocCompiler.Path

variable {done names front : List String} {name : String}

theorem climb_concat_up (done names : List String) :
    climb done (names ++ [".."]) = (climb done names).dropLast := by
  fun_induction climb done names with
  | case1 done => rw [List.nil_append, climb, climb, List.dropLast_reverse]
  | case2 done rest ih => exact ih
  | case3 done other rest hother ih =>
      rw [List.cons_append, climb]
      · exact ih
      · exact hother

theorem climb_concat (h : name ≠ "..") : climb done (names ++ [name]) = climb done names ++ [name] := by
  fun_induction climb done names with
  | case1 done =>
      rw [List.nil_append, climb, climb, List.reverse_cons]
      exact h
  | case2 done rest ih => exact ih
  | case3 done other rest hother ih =>
      rw [List.cons_append, climb]
      · exact ih
      · exact hother

/-- A path that leads to names at its end or on its way. -/
def LeadsThrough (path : Path) (names : List String) : Prop :=
  ∃ front, front <+: path.names ∧ climb [] front = names

/-- All above of what names lead to is on their way. -/
theorem exists_climb_eq_of_prefix (h : names <+: climb [] front) :
    ∃ less, less <+: front ∧ climb [] less = names := by
  induction front using List.reverseRecOn with
  | nil => exact ⟨[], List.prefix_refl _, (List.prefix_nil.mp h).symm⟩
  | append_singleton front name ih =>
      have hshorter (hfront : names <+: climb [] front) :
          ∃ less, less <+: front ++ [name] ∧ climb [] less = names := by
        obtain ⟨less, hless, hclimb⟩ := ih hfront
        exact ⟨less, hless.trans (List.prefix_append front [name]), hclimb⟩
      by_cases hname : name = ".."
      · subst hname
        rw [climb_concat_up] at h
        exact hshorter (h.trans (List.dropLast_prefix _))
      · rw [climb_concat hname, List.prefix_concat_iff] at h
        rcases h with rfl | h
        · exact ⟨_, List.prefix_refl _, climb_concat hname⟩
        · exact hshorter h

theorem not_prefix_climb_of_not_leadsThrough {path : Path} (h : ¬ path.LeadsThrough names)
    (hfront : front <+: path.names) : ¬ names <+: climb [] front := by
  intro hnames
  obtain ⟨less, hless, hclimb⟩ := exists_climb_eq_of_prefix hnames
  exact h ⟨less, hless.trans hfront, hclimb⟩

end DocCompiler.Path

namespace DocCompiler.FileTree

section Entries

variable {part : FileTree} {entries : List (String × FileTree)} {name other : String}

theorem lookup_putEntry_self : (putEntry name part entries).lookup name = some part := by
  induction entries with
  | nil => simp [putEntry]
  | cons entry rest ih =>
      rcases entry with ⟨first, old⟩
      by_cases h : first = name
      · simp [putEntry, h]
      · simp [putEntry, h, List.lookup_cons, beq_false_of_ne (Ne.symm h), ih]

theorem lookup_putEntry_of_ne (h : other ≠ name) :
    (putEntry name part entries).lookup other = entries.lookup other := by
  induction entries with
  | nil => simp [putEntry, List.lookup_cons, beq_false_of_ne h]
  | cons entry rest ih =>
      rcases entry with ⟨first, old⟩
      by_cases hfirst : first = name
      · subst hfirst
        simp [putEntry, List.lookup_cons, beq_false_of_ne h]
      · simp [putEntry, hfirst, List.lookup_cons, ih]

theorem lookup_filter_self : (entries.filter (·.1 != name)).lookup name = none := by
  rw [List.lookup_eq_none_iff]
  intro entry hentry
  rw [bne_comm]
  exact (List.mem_filter.mp hentry).2

end Entries

section Find

variable {tree found : FileTree} {entries : List (String × FileTree)} {name : String}
  {above below : List String}

theorem find?_cons (name : String) (names : List String) (entries : List (String × FileTree)) :
    find? (name :: names) (.directory entries) = (entries.lookup name).bind (find? names) :=
  rfl

theorem find?_append (above below : List String) (tree : FileTree) :
    tree.find? (above ++ below) = (tree.find? above).bind (find? below) := by
  induction above generalizing tree with
  | nil => rfl
  | cons name above ih =>
      cases tree with
      | directory entries =>
          rw [List.cons_append, find?_cons, find?_cons, Option.bind_assoc]
          congr 1
          funext sub
          exact ih sub
      | _ => rfl

/-- Names that lead to a directory. -/
def HasDirectory (names : List String) (tree : FileTree) : Prop :=
  ∃ entries, tree.find? names = some (.directory entries)

theorem hasDirectory_of_find? (h : tree.find? (above ++ [name]) = some found) :
    tree.HasDirectory above := by
  rw [find?_append] at h
  obtain ⟨sub, hsub, hfound⟩ := Option.bind_eq_some_iff.mp h
  cases sub with
  | directory entries => exact ⟨entries, hsub⟩
  | _ => cases hfound

theorem HasDirectory.dropLast (h : tree.HasDirectory above) : tree.HasDirectory above.dropLast := by
  rcases List.eq_nil_or_concat above with rfl | ⟨front, last, rfl⟩
  · exact h
  · rw [List.concat_eq_append] at h ⊢
    rw [List.dropLast_concat]
    obtain ⟨entries, hentries⟩ := h
    exact hasDirectory_of_find? hentries

/-- What holds no entries leads nowhere. -/
theorem find?_of_entries_eq_nil (h : tree.entries = []) : tree.find? (name :: below) = none := by
  cases tree with
  | directory entries =>
      obtain rfl : entries = [] := h
      rfl
  | _ => rfl

end Find

section Alter

variable {tree part : FileTree} {entries : List (String × FileTree)} {name : String}
  {above names others : List String} {change : Option FileTree → Option FileTree}

theorem alter_cons (h : names ≠ []) :
    alter change (name :: names) (.directory entries) =
      .directory (putEntry name (alter change names ((entries.lookup name).getD .empty)) entries) := by
  cases names with
  | nil => exact absurd rfl h
  | cons next rest => rfl

theorem put_cons (name : String) (names : List String) (part : FileTree) (entries : List (String × FileTree)) :
    put (.directory entries) (name :: names) part =
      .directory (putEntry name (((entries.lookup name).getD .empty).put names part) entries) := by
  cases names <;> rfl

theorem find?_alter_above (h : tree.find? above = some (.directory entries)) :
    (tree.alter change (above ++ [name])).find? above = some (alter change [name] (.directory entries)) := by
  induction above generalizing tree with
  | nil =>
      obtain rfl := Option.some.inj h
      rfl
  | cons first rest ih =>
      cases tree with
      | directory entries =>
          rw [find?_cons] at h
          obtain ⟨sub, hsub, hrest⟩ := Option.bind_eq_some_iff.mp h
          rw [List.cons_append, alter_cons (by simp), find?_cons, lookup_putEntry_self, hsub]
          exact ih hrest
      | _ => cases h

theorem find?_put_self (h : tree.HasDirectory above) :
    (tree.put (above ++ [name]) part).find? (above ++ [name]) = some part := by
  obtain ⟨entries, hentries⟩ := h
  rw [find?_append, put, find?_alter_above hentries]
  change ((putEntry name part entries).lookup name).bind (find? []) = some part
  rw [lookup_putEntry_self]
  rfl

theorem HasDirectory.alter (h : tree.HasDirectory above) :
    (tree.alter change (above ++ [name])).HasDirectory above := by
  obtain ⟨entries, hentries⟩ := h
  rw [HasDirectory, find?_alter_above hentries]
  rw [FileTree.alter]
  split
  · exact ⟨_, rfl⟩
  · exact ⟨_, rfl⟩

theorem find?_erase_self (h : names ≠ []) : (tree.erase names).find? names = none := by
  induction names generalizing tree with
  | nil => exact absurd rfl h
  | cons name rest ih =>
      cases tree with
      | directory entries =>
          cases rest with
          | nil =>
              change ((entries.filter (·.1 != name)).lookup name).bind (find? []) = none
              rw [lookup_filter_self]
              rfl
          | cons next rest =>
              rw [erase, alter_cons (by simp), find?_cons, lookup_putEntry_self]
              exact ih (by simp)
      | _ => cases rest <;> rfl

/-- Nothing comes up at the end of names when something without entries is put elsewhere. -/
theorem find?_put_eq_none (hnone : tree.find? names = none) (hapart : ¬ names <+: others)
    (hpart : part.entries = []) : (tree.put others part).find? names = none := by
  induction others generalizing tree names with
  | nil =>
      cases names with
      | nil => exact absurd List.nil_prefix hapart
      | cons name names => exact find?_of_entries_eq_nil hpart
  | cons other others ih =>
      cases names with
      | nil => exact absurd List.nil_prefix hapart
      | cons name names =>
          cases tree with
          | directory entries =>
              rw [find?_cons] at hnone
              rw [put_cons, find?_cons]
              by_cases hname : name = other
              · subst hname
                have hrest : ¬ names <+: others := fun hmore => hapart (List.cons_prefix_cons.mpr ⟨rfl, hmore⟩)
                rw [lookup_putEntry_self]
                refine ih ?_ hrest
                cases hlookup : entries.lookup name with
                | some sub => rwa [hlookup] at hnone
                | none =>
                    -- The directory that is made on the way is empty, and the names go on in it.
                    cases names with
                    | nil => exact absurd List.nil_prefix hrest
                    | cons next names => rfl
              · rw [lookup_putEntry_of_ne hname]
                exact hnone
          | _ => cases others <;> rfl

end Alter

section Make

variable {tree made : FileTree} {done names : List String}

/-- The names that directories were made along lead to a directory. -/
theorem hasDirectory_makeAlong (hdone : tree.HasDirectory done.reverse)
    (h : makeAlong done names tree = .ok made) : made.HasDirectory (Path.climb done names) := by
  fun_induction makeAlong done names tree with
  | case1 done tree =>
      obtain rfl := Except.ok.inj h
      exact hdone
  | case2 done rest tree ih =>
      refine ih ?_ h
      rw [← List.dropLast_reverse]
      exact hdone.dropLast
  | case3 done name rest tree hname path entries hfound ih =>
      rw [Path.climb]
      · exact ih ⟨entries, hfound⟩ h
      · exact hname
  | case4 | case5 | case6 => cases h
  | case7 done name rest tree hname path hfound hlong ih =>
      rw [Path.climb]
      · refine ih ⟨[], ?_⟩ h
        change (tree.put (name :: done).reverse .empty).find? (name :: done).reverse = _
        rw [List.reverse_cons]
        exact find?_put_self hdone
      · exact hname

theorem hasDirectory_makeDirectory {path : Path} (hroot : tree.isDirectory = true)
    (h : tree.makeDirectory path = .ok made) : made.HasDirectory (locate path) := by
  rw [makeDirectory] at h
  split_ifs at h
  have hstart : tree.HasDirectory ([] : List String).reverse := by
    cases tree with
    | directory entries => exact ⟨entries, rfl⟩
    | _ => cases hroot
  exact hasDirectory_makeAlong hstart h

/-- A path with a name leads to that name in its directory. -/
theorem locate_eq_of_isNamed {path : Path} (h : path.isNamed = true) :
    ∃ name, locate path = locate path.parent ++ [name] := by
  rw [Path.isNamed, Option.any_eq_true] at h
  obtain ⟨name, hlast, hname⟩ := h
  have hnames : path.names.dropLast ++ [name] = path.names := List.dropLast_append_getLast? name hlast
  refine ⟨name, ?_⟩
  rw [locate, ← hnames]
  exact Path.climb_concat (by simpa using hname)

theorem find?_write {path : Path} {text : String} (hroot : tree.isDirectory = true)
    (h : tree.write path text = (made, .ok ())) :
    made.find? (locate path) = some (.file (Text.encode text) 0) := by
  rw [write] at h
  split at h
  · cases h
  · next above habove =>
      split at h
      · cases h
      · by_cases hnamed : path.isNamed = true
        · obtain ⟨name, hlocate⟩ := locate_eq_of_isNamed hnamed
          rw [hnamed, Bool.not_true, if_neg Bool.false_ne_true] at h
          split at h
          · cases h
          · obtain ⟨rfl, -⟩ := Prod.mk.inj h
            rw [hlocate]
            exact find?_put_self (hasDirectory_makeDirectory hroot habove)
        · rw [Bool.not_eq_true] at hnamed
          rw [hnamed, Bool.not_false, if_pos rfl] at h
          cases h

/-- Nothing comes up at the end of names that directories are not made along. -/
theorem find?_makeAlong_eq_none {others : List String} (hnone : tree.find? others = none)
    (hapart : ∀ front, front <+: names → ¬ others <+: Path.climb done front)
    (h : makeAlong done names tree = .ok made) : made.find? others = none := by
  fun_induction makeAlong done names tree with
  | case1 done tree =>
      obtain rfl := Except.ok.inj h
      exact hnone
  | case2 done rest tree ih =>
      exact ih hnone (fun front hfront => hapart (".." :: front) (List.cons_prefix_cons.mpr ⟨rfl, hfront⟩)) h
  | case3 done name rest tree hname path entries hfound ih =>
      refine ih hnone (fun front hfront => ?_) h
      have hlonger := hapart (name :: front) (List.cons_prefix_cons.mpr ⟨rfl, hfront⟩)
      rwa [Path.climb] at hlonger
      exact hname
  | case4 | case5 | case6 => cases h
  | case7 done name rest tree hname path hfound hlong ih =>
      have hstep {front : List String} (hfront : front <+: rest) : ¬ others <+: Path.climb (name :: done) front := by
        have hlonger := hapart (name :: front) (List.cons_prefix_cons.mpr ⟨rfl, hfront⟩)
        rwa [Path.climb] at hlonger
        exact hname
      exact ih (find?_put_eq_none hnone (hstep List.nil_prefix) rfl) (fun _ hfront => hstep hfront) h

/-- Nothing comes up at the end of names when a text is written under a path that does not lead there. -/
theorem find?_write_eq_none {path : Path} {text : String} {others : List String}
    (hnone : tree.find? others = none) (hapart : ¬ path.LeadsThrough others) :
    (tree.write path text).1.find? others = none := by
  rw [write]
  split
  · exact hnone
  · next above habove =>
      rw [makeDirectory] at habove
      split_ifs at habove
      have hmade : above.find? others = none :=
        find?_makeAlong_eq_none hnone
          (fun front hfront => Path.not_prefix_climb_of_not_leadsThrough hapart
            (hfront.trans (List.dropLast_prefix _)))
          habove
      split
      · exact hmade
      · split
        · exact hmade
        · split
          · exact hmade
          · exact find?_put_eq_none hmade
              (Path.not_prefix_climb_of_not_leadsThrough hapart (List.prefix_refl _)) rfl

end Make

end DocCompiler.FileTree
