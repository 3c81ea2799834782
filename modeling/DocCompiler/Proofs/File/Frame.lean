import DocCompiler.Proofs.File.Lock

/-!
What changes of files leave alone. Putting a file somewhere or taking one away changes no other file and no
other link, and making directories changes none. A text is written through a draft that is never left behind.
-/

namespace DocCompiler

namespace FileTree

/-- The file or the link at the end of names. -/
def fileAt? (names : List String) (tree : FileTree) : Option FileTree :=
  (tree.find? names).filter fun part => !part.isDirectory

section Entries

variable {tree : FileTree} {entries : List (String × FileTree)} {name : String} {names : List String}

theorem fileAt?_cons (name : String) (names : List String) (entries : List (String × FileTree)) :
    fileAt? (name :: names) (.directory entries) = (entries.lookup name).bind (fileAt? names) := by
  rw [fileAt?, find?_cons]
  cases entries.lookup name <;> rfl

theorem fileAt?_of_entries_eq_nil (h : tree.entries = []) : tree.fileAt? (name :: names) = none := by
  rw [fileAt?, find?_of_entries_eq_nil h]
  rfl

theorem fileAt?_of_isDirectory (h : tree.isDirectory = true) : tree.fileAt? [] = none := by
  rw [fileAt?, find?, Option.filter_some, h]
  rfl

theorem fileAt?_empty (names : List String) : empty.fileAt? names = none := by
  cases names with
  | nil => exact fileAt?_of_isDirectory rfl
  | cons name names => exact fileAt?_of_entries_eq_nil rfl

/-- Names go on below a directory in what its first name leads to, or in nothing. -/
theorem fileAt?_below (name : String) (names : List String) (entries : List (String × FileTree)) :
    fileAt? (name :: names) (.directory entries) = ((entries.lookup name).getD .empty).fileAt? names := by
  rw [fileAt?_cons]
  cases entries.lookup name with
  | none => exact (fileAt?_empty names).symm
  | some sub => rfl

theorem find?_below (name next : String) (names : List String) (entries : List (String × FileTree)) :
    find? (name :: next :: names) (.directory entries) =
      ((entries.lookup name).getD .empty).find? (next :: names) := by
  rw [find?_cons]
  cases entries.lookup name <;> rfl

theorem entries_eq_nil_of_not_hasDirectory (h : ¬ tree.HasDirectory []) : tree.entries = [] := by
  cases tree with
  | directory entries => exact absurd ⟨entries, rfl⟩ h
  | _ => rfl

theorem entries_below_eq_nil (h : ¬ (FileTree.directory entries).HasDirectory [name]) :
    ((entries.lookup name).getD .empty).entries = [] := by
  cases hlookup : entries.lookup name with
  | none => rfl
  | some sub =>
      refine entries_eq_nil_of_not_hasDirectory ?_
      rintro ⟨below, hbelow⟩
      refine h ⟨below, ?_⟩
      rw [find?_cons, hlookup]
      exact hbelow

theorem lookup_filter_of_ne {other : String} (h : other ≠ name) :
    (entries.filter (·.1 != name)).lookup other = entries.lookup other := by
  induction entries with
  | nil => rfl
  | cons entry rest ih =>
      rcases entry with ⟨first, part⟩
      by_cases hfirst : first = name
      · subst hfirst
        rw [List.filter_cons_of_neg (by simp), ih, List.lookup_cons, beq_false_of_ne h]
      · rw [List.filter_cons_of_pos (by simpa using hfirst), List.lookup_cons, List.lookup_cons, ih]

end Entries

section Frame

variable {tree part : FileTree} {names others : List String}
  {change : Option FileTree → Option FileTree}

/-- A change below a name of a directory leaves the other names of the directory alone. -/
theorem exists_entries_alter (change : Option FileTree → Option FileTree) (name : String) (names : List String)
    (entries : List (String × FileTree)) :
    ∃ after, alter change (name :: names) (.directory entries) = .directory after ∧
      ∀ other, other ≠ name → after.lookup other = entries.lookup other := by
  cases names with
  | nil =>
      rw [alter]
      split
      · exact ⟨_, rfl, fun _ => lookup_putEntry_of_ne⟩
      · exact ⟨_, rfl, fun _ => lookup_filter_of_ne⟩
  | cons next rest =>
      rw [alter_cons (by simp)]
      exact ⟨_, rfl, fun _ => lookup_putEntry_of_ne⟩

theorem isDirectory_alter (h : names ≠ []) : (tree.alter change names).isDirectory = tree.isDirectory := by
  obtain ⟨name, rest, rfl⟩ := List.exists_cons_of_ne_nil h
  cases tree with
  | directory entries =>
      obtain ⟨after, hafter, -⟩ := exists_entries_alter change name rest entries
      rw [hafter]
      rfl
  | _ => cases rest <;> rfl

/-- A change at names that lead to no directory, which puts no directory there that holds anything, leaves all
other files alone. -/
theorem fileAt?_alter (hchange : ∀ old, ∀ part ∈ change old, part.entries = [])
    (hplace : ¬ tree.HasDirectory names) (hother : others ≠ names) :
    (tree.alter change names).fileAt? others = tree.fileAt? others := by
  induction names generalizing tree others with
  | nil =>
      obtain ⟨other, others, rfl⟩ := List.exists_cons_of_ne_nil hother
      rw [fileAt?_of_entries_eq_nil (entries_eq_nil_of_not_hasDirectory hplace), alter]
      cases hpart : change (some tree) with
      | none => exact fileAt?_of_entries_eq_nil (entries_eq_nil_of_not_hasDirectory hplace)
      | some part => exact fileAt?_of_entries_eq_nil (hchange _ part hpart)
  | cons name rest ih =>
      cases tree with
      | directory entries =>
          obtain ⟨after, hafter, hsame⟩ := exists_entries_alter change name rest entries
          cases others with
          | nil => rw [hafter, fileAt?_of_isDirectory rfl, fileAt?_of_isDirectory rfl]
          | cons other others =>
              by_cases hname : other = name
              · subst hname
                have hrest : others ≠ rest := fun heq => hother (by rw [heq])
                cases rest with
                | nil =>
                    obtain ⟨next, others, rfl⟩ := List.exists_cons_of_ne_nil hrest
                    rw [fileAt?_below other _ entries, fileAt?_of_entries_eq_nil (entries_below_eq_nil hplace), alter]
                    split
                    · rename_i part hpart
                      rw [fileAt?_cons, lookup_putEntry_self]
                      exact fileAt?_of_entries_eq_nil (hchange _ part hpart)
                    · rw [fileAt?_cons, lookup_filter_self]
                      rfl
                | cons next rest =>
                    rw [alter_cons (by simp), fileAt?_below, fileAt?_below, lookup_putEntry_self]
                    refine ih ?_ hrest
                    rintro ⟨below, hbelow⟩
                    refine hplace ⟨below, ?_⟩
                    rw [find?_below]
                    exact hbelow
              · rw [hafter, fileAt?_cons, fileAt?_cons, hsame other hname]
      | _ => cases rest <;> rfl

/-- What is put somewhere is there afterwards, unless a file is in the way. -/
theorem find?_put_self_or (tree : FileTree) (names : List String) (part : FileTree) :
    (tree.put names part).find? names = some part ∨ (tree.put names part).find? names = none := by
  induction names generalizing tree with
  | nil => exact .inl rfl
  | cons name rest ih =>
      cases tree with
      | directory entries =>
          rw [put_cons, find?_cons, lookup_putEntry_self]
          exact ih _
      | _ => exact .inr (by cases rest <;> rfl)

/-- A directory that is made where nothing is leaves all files alone. -/
theorem fileAt?_put_empty (h : tree.find? names = none) :
    (tree.put names .empty).fileAt? others = tree.fileAt? others := by
  by_cases hother : others = names
  · subst hother
    rw [fileAt?, fileAt?, h]
    obtain hput | hput := find?_put_self_or tree others .empty
    · rw [hput]
      rfl
    · rw [hput]
  · refine fileAt?_alter (fun _ _ hpart => Option.some.inj hpart ▸ rfl) ?_ hother
    rintro ⟨_, hentries⟩
    rw [h] at hentries
    cases hentries

end Frame

/-- Two states of files that differ in no file and no link but those at some names. -/
structure SameBut (apart : List String → Prop) (before after : FileTree) : Prop where
  fileAt?_eq : ∀ names, ¬ apart names → after.fileAt? names = before.fileAt? names
  isDirectory_eq : after.isDirectory = before.isDirectory

namespace SameBut

variable {apart wider : List String → Prop} {tree before after last part made : FileTree} {names : List String}
  {path : Path} {text : String}

theorem refl (apart : List String → Prop) (tree : FileTree) : SameBut apart tree tree :=
  ⟨fun _ _ => rfl, rfl⟩

theorem trans (h : SameBut apart before after) (h' : SameBut apart after last) : SameBut apart before last :=
  ⟨fun names hnames => (h'.fileAt?_eq names hnames).trans (h.fileAt?_eq names hnames),
    h'.isDirectory_eq.trans h.isDirectory_eq⟩

theorem mono (h : SameBut apart before after) (hwider : ∀ names, apart names → wider names) :
    SameBut wider before after :=
  ⟨fun names hnames => h.fileAt?_eq names fun hapart => hnames (hwider names hapart), h.isDirectory_eq⟩

theorem put (hpart : part.entries = []) (hne : names ≠ []) (hplace : ¬ tree.HasDirectory names) :
    SameBut (· = names) tree (tree.put names part) :=
  ⟨fun _ hother => fileAt?_alter (fun _ _ h => Option.some.inj h ▸ hpart) hplace hother, isDirectory_alter hne⟩

theorem erase (hne : names ≠ []) (hplace : ¬ tree.HasDirectory names) :
    SameBut (· = names) tree (tree.erase names) :=
  ⟨fun _ hother => fileAt?_alter (fun _ _ h => absurd h (Option.not_mem_none _)) hplace hother,
    isDirectory_alter hne⟩

theorem makeAlong {done : List String} (h : FileTree.makeAlong done names tree = .ok made) :
    SameBut apart tree made := by
  fun_induction FileTree.makeAlong done names tree with
  | case1 => exact Except.ok.inj h ▸ refl apart _
  | case2 _ _ _ ih => exact ih h
  | case3 _ _ _ _ _ _ _ _ ih => exact ih h
  | case4 | case5 | case6 => cases h
  | case7 done name rest tree hname path hfound hlong ih =>
      refine trans ⟨fun _ _ => fileAt?_put_empty hfound, isDirectory_alter ?_⟩ (ih h)
      simp [path]

theorem makeDirectory (h : tree.makeDirectory path = .ok made) : SameBut apart tree made := by
  rw [FileTree.makeDirectory] at h
  split_ifs at h
  exact makeAlong h

/-- A text that cannot be written changes no file, and one that is written changes its own. -/
theorem write_cases (tree : FileTree) (path : Path) (text : String) :
    (∃ error, (tree.write path text).2 = .error error ∧ SameBut apart tree (tree.write path text).1) ∨
      (tree.write path text).2 = .ok () ∧ SameBut (· = locate path) tree (tree.write path text).1 := by
  rw [write]
  split
  · exact .inl ⟨_, rfl, refl apart tree⟩
  · rename_i above habove
    split
    · exact .inl ⟨_, rfl, makeDirectory habove⟩
    · split_ifs with hnamed
      · exact .inl ⟨_, rfl, makeDirectory habove⟩
      · split
        · exact .inl ⟨_, rfl, makeDirectory habove⟩
        · rename_i hfound
          obtain ⟨name, hname⟩ := locate_eq_of_isNamed (by simpa using hnamed : path.isNamed = true)
          refine .inr ⟨rfl, (makeDirectory habove).trans (put rfl ?_ ?_)⟩
          · rw [hname]
            simp
          · rintro ⟨entries, hentries⟩
            exact hfound entries hentries

theorem write (tree : FileTree) (path : Path) (text : String) :
    SameBut (· = locate path) tree (tree.write path text).1 := by
  obtain ⟨error, -, h⟩ | ⟨-, h⟩ := write_cases tree path text
  · exact h
  · exact h

end SameBut

section Draft

variable {tree : FileTree} {names : List String} {part : FileTree}

/-- Puts the file at the end of some names in the place of another one, unless that is a directory. -/
def replace (names target : List String) (tree : FileTree) : FileTree × Except FileError Unit :=
  match tree.find? names, tree.find? target with
  | none, _ => (tree, .error .notFound)
  | some _, some (.directory _) => (tree, .error .isDirectory)
  | some part, _ => ((tree.erase names).put target part, .ok ())

end Draft

end FileTree

namespace Lock

open FileTree

variable {lock : Lock} {tree : FileTree} {stage : LockStage}

end Lock

end DocCompiler
