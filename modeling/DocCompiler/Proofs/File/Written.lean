import DocCompiler.Proofs.File.Frame

/-!
A file that was written is read with what was written to it. The directories along its path are there once it is
written, so that two dots in the path lead up from a directory.
-/

namespace DocCompiler.FileTree

variable {tree made part : FileTree} {names others done : List String} {last : String}

theorem HasDirectory.of_isPrefix (h : tree.HasDirectory others) (hstart : names <+: others) :
    tree.HasDirectory names := by
  obtain ⟨below, rfl⟩ := hstart
  obtain ⟨entries, hentries⟩ := h
  rw [find?_append] at hentries
  obtain ⟨sub, hsub, hbelow⟩ := Option.bind_eq_some_iff.mp hentries
  cases sub with
  | directory within => exact ⟨within, hsub⟩
  | _ => cases below <;> cases hbelow

/-- A change leaves the directories that do not lie at its place or below it. -/
theorem HasDirectory.alter_of_not_isPrefix {change : Option FileTree → Option FileTree}
    (h : tree.HasDirectory others) (hapart : ¬ names <+: others) :
    (tree.alter change names).HasDirectory others := by
  induction names generalizing tree others with
  | nil => exact absurd List.nil_prefix hapart
  | cons name rest ih =>
      obtain ⟨entries, rfl⟩ : ∃ entries, tree = .directory entries := by
        obtain ⟨entries, hentries⟩ := h.of_isPrefix List.nil_prefix
        exact ⟨entries, Option.some.inj hentries⟩
      obtain ⟨after, hafter, hsame⟩ := exists_entries_alter change name rest entries
      cases others with
      | nil => exact ⟨after, hafter ▸ rfl⟩
      | cons other others =>
          by_cases hname : other = name
          · subst hname
            have hrest : ¬ rest <+: others := fun hmore => hapart (List.cons_prefix_cons.mpr ⟨rfl, hmore⟩)
            have hne : rest ≠ [] := by
              rintro rfl
              exact hrest List.nil_prefix
            obtain ⟨within, hwithin⟩ := h
            obtain ⟨sub, hsub, hbelow⟩ := Option.bind_eq_some_iff.mp hwithin
            obtain ⟨found, hfound⟩ := ih ⟨within, hbelow⟩ hrest
            refine ⟨found, ?_⟩
            rw [alter_cons hne, find?_cons, lookup_putEntry_self, hsub]
            exact hfound
          · obtain ⟨within, hwithin⟩ := h
            refine ⟨within, ?_⟩
            rw [hafter, find?_cons, hsame other hname]
            exact hwithin

/-- Directories that are there stay when others are made. -/
theorem HasDirectory.makeAlong (h : tree.HasDirectory others)
    (hmade : FileTree.makeAlong done names tree = .ok made) : made.HasDirectory others := by
  fun_induction FileTree.makeAlong done names tree with
  | case1 => exact Except.ok.inj hmade ▸ h
  | case2 _ _ _ ih => exact ih h hmade
  | case3 _ _ _ _ _ _ _ _ ih => exact ih h hmade
  | case4 | case5 | case6 => cases hmade
  | case7 done name rest tree hname path hfound hlong ih =>
      refine ih (h.alter_of_not_isPrefix fun hstart => ?_) hmade
      obtain ⟨entries, hentries⟩ := h.of_isPrefix hstart
      rw [hfound] at hentries
      cases hentries

/-- Every part of the way along which directories were made leads to a directory. -/
theorem hasDirectory_front (hdone : tree.HasDirectory done.reverse)
    (h : makeAlong done names tree = .ok made) :
    ∀ front, front <+: names → made.HasDirectory (Path.climb done front) := by
  fun_induction makeAlong done names tree with
  | case1 done tree =>
      intro front hfront
      rw [List.prefix_nil.mp hfront, Path.climb]
      exact Except.ok.inj h ▸ hdone
  | case2 done rest tree ih =>
      have hup : tree.HasDirectory done.tail.reverse := by
        rw [← List.dropLast_reverse]
        exact hdone.dropLast
      rintro (_ | ⟨name, front⟩) hfront
      · exact hdone.makeAlong h
      · obtain ⟨rfl, hrest⟩ := List.cons_prefix_cons.mp hfront
        exact ih hup h front hrest
  | case3 done name rest tree hname path entries hfound ih =>
      rintro (_ | ⟨first, front⟩) hfront
      · exact (hdone.makeAlong h : made.HasDirectory done.reverse)
      · obtain ⟨rfl, hrest⟩ := List.cons_prefix_cons.mp hfront
        rw [Path.climb]
        · exact ih ⟨entries, hfound⟩ h front hrest
        · exact hname
  | case4 | case5 | case6 => cases h
  | case7 done name rest tree hname path hfound hlong ih =>
      have hput : (tree.put (name :: done).reverse .empty).HasDirectory (name :: done).reverse := by
        refine ⟨[], ?_⟩
        rw [List.reverse_cons]
        exact find?_put_self hdone
      rintro (_ | ⟨first, front⟩) hfront
      · have hdone' := hput.of_isPrefix (List.reverse_cons ▸ List.prefix_append done.reverse [name])
        exact hdone'.makeAlong h
      · obtain ⟨rfl, hrest⟩ := List.cons_prefix_cons.mp hfront
        rw [Path.climb]
        · exact ih hput h front hrest
        · exact hname

/-- A path is followed to the names that it leads to, where there is a directory all along the way. -/
theorem walk_concat (hlast : last ≠ "..")
    (h : ∀ front, front <+: names → tree.HasDirectory (Path.climb done front)) :
    tree.walk done (names ++ [last]) = tree.find? (Path.climb done (names ++ [last])) := by
  induction names generalizing done with
  | nil =>
      rw [List.nil_append, walk, walk, Path.climb, Path.climb]
      · exact hlast
      · exact hlast
  | cons name rest ih =>
      by_cases hname : name = ".."
      · subst hname
        obtain ⟨entries, hentries⟩ : tree.HasDirectory done.reverse := h [] List.nil_prefix
        have hdirectory : (tree.find? done.reverse).any isDirectory = true := by
          rw [hentries]
          rfl
        rw [List.cons_append, walk, if_pos hdirectory, Path.climb]
        exact ih fun front hfront => h (".." :: front) (List.cons_prefix_cons.mpr ⟨rfl, hfront⟩)
      · have hstep : ∀ front, front <+: rest → tree.HasDirectory (Path.climb (name :: done) front) := by
          intro front hfront
          have hlonger := h (name :: front) (List.cons_prefix_cons.mpr ⟨rfl, hfront⟩)
          rwa [Path.climb] at hlonger
          exact hname
        rw [List.cons_append, walk, Path.climb]
        · exact ih hstep
        · exact hname
        · exact hname

/-- A file that was written is read with what was written to it. -/
theorem read_write {path : Path} {text : String} (hroot : tree.isDirectory = true)
    (h : tree.write path text = (made, .ok ())) : made.read path = .ok (Text.encode text) := by
  have hfile := find?_write hroot h
  rw [write] at h
  split at h
  · cases h
  rename_i above habove
  split at h
  · cases h
  split_ifs at h with hnamed
  · cases h
  split at h
  · cases h
  rename_i hno
  obtain ⟨rfl, -⟩ := Prod.mk.inj h
  have hlast : ∃ last, path.names = path.parent.names ++ [last] ∧ last ≠ ".." := by
    rw [Bool.not_eq_true', Bool.not_eq_false, Path.isNamed, Option.any_eq_true] at hnamed
    obtain ⟨last, hlast, hne⟩ := hnamed
    exact ⟨last, (List.dropLast_append_getLast? last hlast).symm, by simpa using hne⟩
  obtain ⟨last, hnames, hne⟩ := hlast
  have hmade : ∀ front, front <+: path.parent.names → above.HasDirectory (Path.climb [] front) := by
    rw [makeDirectory] at habove
    split_ifs at habove
    refine hasDirectory_front ?_ habove
    cases tree with
    | directory entries => exact ⟨entries, rfl⟩
    | _ => cases hroot
  -- No directory lies where the file is put, so those on the way stay.
  have hkept : ∀ front, front <+: path.parent.names →
      (above.put (locate path) (.file (Text.encode text) 0)).HasDirectory (Path.climb [] front) := by
    intro front hfront
    refine (hmade front hfront).alter_of_not_isPrefix fun hstart => ?_
    obtain ⟨entries, hentries⟩ := (hmade front hfront).of_isPrefix hstart
    exact hno entries hentries
  have hwalk := walk_concat hne hkept
  rw [← hnames] at hwalk
  rw [read, follow?, hwalk, ← locate, hfile]

end DocCompiler.FileTree
