import DocCompiler.Project.Locate
import DocCompiler.Proofs.Data.Registry
import DocCompiler.Proofs.File.Tree

/-!
What is kept of the files in a directory: those that are not left out, below directories none of which is
left out.
-/

namespace DocCompiler

namespace FileTree

mutual

/-- A tree in which the names in every directory are distinct and hold no slash. -/
def Proper : FileTree → Prop
  | .directory entries => (entries.map (·.1)).Nodup ∧ EntriesProper entries
  | _ => True

/-- The names of entries hold no slash, and what stands under them is proper. -/
def EntriesProper : List (String × FileTree) → Prop
  | [] => True
  | (name, tree) :: rest => '/' ∉ name.toList ∧ Proper tree ∧ EntriesProper rest

end

/-- Names that lead to a file, or to a link. -/
def HasFile (names : List String) (tree : FileTree) : Prop :=
  ∃ part, tree.find? names = some part ∧ part.isDirectory = false

variable {tree part : FileTree} {entries : List (String × FileTree)} {names : List String} {name : String}

theorem entriesProper_iff :
    EntriesProper entries ↔ ∀ entry ∈ entries, '/' ∉ entry.1.toList ∧ entry.2.Proper := by
  induction entries with
  | nil => simp [EntriesProper]
  | cons entry rest ih => simp [EntriesProper, ih, and_assoc]

theorem Proper.lookup_iff (h : (directory entries).Proper) :
    entries.lookup name = some part ↔ (name, part) ∈ entries :=
  ⟨fun hlookup => OrderedMap.mem_of_get? hlookup, fun hmem => OrderedMap.get?_of_mem h.1 hmem⟩

/-- What is found in a proper tree is proper, and the names on the way hold no slash. -/
theorem Proper.of_find? (h : tree.Proper) (hfind : tree.find? names = some part) :
    part.Proper ∧ ∀ name ∈ names, '/' ∉ name.toList := by
  induction names generalizing tree with
  | nil =>
      obtain rfl := Option.some.inj hfind
      exact ⟨h, nofun⟩
  | cons name names ih =>
      cases tree with
      | directory entries =>
          rw [find?_cons] at hfind
          obtain ⟨sub, hsub, hrest⟩ := Option.bind_eq_some_iff.mp hfind
          obtain ⟨hname, hproper⟩ := entriesProper_iff.mp h.2 _ (h.lookup_iff.mp hsub)
          obtain ⟨hpart, hnames⟩ := ih hproper hrest
          exact ⟨hpart, List.forall_mem_cons.mpr ⟨hname, hnames⟩⟩
      | _ => cases hfind

theorem HasFile.cons_iff : (directory entries).HasFile (name :: names) ↔
    ∃ sub, entries.lookup name = some sub ∧ sub.HasFile names := by
  simp only [HasFile, find?_cons, Option.bind_eq_some_iff]
  constructor
  · rintro ⟨part, ⟨sub, hsub, hfind⟩, hfile⟩
    exact ⟨sub, hsub, part, hfind, hfile⟩
  · rintro ⟨sub, hsub, part, hfind, hfile⟩
    exact ⟨part, ⟨sub, hsub, hfind⟩, hfile⟩

end FileTree

namespace IgnoreRule

/-- Rules leave out a path when the last one that matches it is not negated. -/
def LeaveOut (rules : List IgnoreRule) (path : String) (isDirectory : Bool) : Prop :=
  ∃ before rule after, rules = before ++ rule :: after ∧ rule.matches? path isDirectory = true ∧
    rule.negated = false ∧ ∀ later ∈ after, later.matches? path isDirectory = false

theorem ignores_iff {rules : List IgnoreRule} {path : String} {isDirectory : Bool} :
    ignores rules path isDirectory = true ↔ LeaveOut rules path isDirectory := by
  induction rules using List.reverseRecOn with
  | nil => simp [ignores, LeaveOut]
  | append_singleton rules last ih =>
      rw [ignores, List.foldl_append, List.foldl_cons, List.foldl_nil, ← ignores]
      constructor
      · split_ifs with hmatch
        · exact fun hlast => ⟨rules, last, [], rfl, hmatch, by simpa using hlast, nofun⟩
        · intro hrules
          obtain ⟨before, rule, after, rfl, hrule, hnegated, hafter⟩ := ih.mp hrules
          refine ⟨before, rule, after ++ [last], by simp, hrule, hnegated, fun later hlater => ?_⟩
          rcases List.mem_append.mp hlater with hlater | hlater
          · exact hafter later hlater
          · obtain rfl := List.mem_singleton.mp hlater
            exact (Bool.not_eq_true _).mp hmatch
      · rintro ⟨before, rule, after, heq, hrule, hnegated, hafter⟩
        rcases List.eq_nil_or_concat after with rfl | ⟨after, final, rfl⟩
        · obtain rfl := (List.cons.inj (List.append_inj' heq rfl).2).1
          rw [if_pos hrule, hnegated]
          rfl
        · rw [List.concat_eq_append, ← List.cons_append, ← List.append_assoc] at heq
          obtain ⟨rfl, hfinal⟩ := List.append_inj' heq rfl
          obtain rfl := (List.cons.inj hfinal).1
          rw [if_neg (by simp [hafter last])]
          refine ih.mpr ⟨before, rule, after, rfl, hrule, hnegated, fun later hlater => ?_⟩
          exact hafter later (by simp [hlater])

end IgnoreRule

namespace Locate

/-- A directory that is searched, by its names from the base of the rules on. -/
def IsSearched (rules : List IgnoreRule) (names : List String) : Prop :=
  (∀ name ∈ names.getLast?, name ∉ excludedDirectories) ∧
    ¬ IgnoreRule.LeaveOut rules (Text.joinWith "/" names) true

/-- A file that is not left out, by its names from the base of the rules on. -/
def IsTaken (rules : List IgnoreRule) (names : List String) : Prop :=
  (∀ name ∈ names.getLast?, name ∉ excludedFiles) ∧
    ¬ IgnoreRule.LeaveOut rules (Text.joinWith "/" names) false

/-- Names that lead from a directory to a file that is not left out, through directories that are searched.
`above` leads from the base of the rules to the directory. -/
structure Unpruned (rules : List IgnoreRule) (above below : List String) : Prop where
  searched : ∀ part, part <+: below → part ≠ [] → part ≠ below → IsSearched rules (above ++ part)
  taken : IsTaken rules (above ++ below)

variable {rules : List IgnoreRule} {above below names : List String} {name : String}

theorem unpruned_singleton : Unpruned rules above [name] ↔ IsTaken rules (above ++ [name]) := by
  refine ⟨Unpruned.taken, fun h => ⟨fun part hpart hne hother => ?_, h⟩⟩
  rcases List.prefix_cons_iff.mp hpart with rfl | ⟨rest, rfl, hrest⟩
  · exact absurd rfl hne
  · rw [List.prefix_nil.mp hrest] at hother
    exact absurd rfl hother

theorem unpruned_cons (h : below ≠ []) :
    Unpruned rules above (name :: below) ↔
      IsSearched rules (above ++ [name]) ∧ Unpruned rules (above ++ [name]) below := by
  have hassoc (part : List String) : above ++ [name] ++ part = above ++ name :: part := by simp
  constructor
  · rintro ⟨hsearched, htaken⟩
    refine ⟨hsearched [name] ?_ (List.cons_ne_nil _ _) ?_, fun part hpart hne hother => ?_, ?_⟩
    · exact List.cons_prefix_cons.mpr ⟨rfl, List.nil_prefix⟩
    · exact fun heq => h (List.cons.inj heq).2.symm
    · rw [hassoc]
      exact hsearched _ (List.cons_prefix_cons.mpr ⟨rfl, hpart⟩) (List.cons_ne_nil _ _)
        fun heq => hother (List.cons.inj heq).2
    · rwa [hassoc]
  · rintro ⟨hfirst, hsearched, htaken⟩
    refine ⟨fun part hpart hne hother => ?_, by rwa [hassoc] at htaken⟩
    rcases List.prefix_cons_iff.mp hpart with rfl | ⟨rest, rfl, hrest⟩
    · exact absurd rfl hne
    · by_cases hnil : rest = []
      · rwa [hnil]
      · rw [← hassoc]
        exact hsearched rest hrest hnil fun heq => hother (by rw [heq])

/-- Names are kept of an entry that is a directory to search, or a file to take. -/
def KeptAt (rules : List IgnoreRule) (above names : List String) (name : String) (tree : FileTree) : Prop :=
  (tree.isDirectory = true ∧ IsSearched rules (above ++ [name]) ∧ names ∈ kept rules (above ++ [name]) tree) ∨
    (tree.isDirectory = false ∧ IsTaken rules (above ++ [name]) ∧ names = above ++ [name])

theorem mem_keptEntries_cons {tree : FileTree} {rest : List (String × FileTree)} :
    names ∈ keptEntries rules above ((name, tree) :: rest) ↔
      KeptAt rules above names name tree ∨ names ∈ keptEntries rules above rest := by
  have hlast : (above ++ [name]).getLast? = some name := List.getLast?_concat
  rw [keptEntries, List.mem_append]
  refine or_congr_left ?_
  cases hdirectory : tree.isDirectory with
  | true => simp [KeptAt, hdirectory, IsSearched, hlast, ← IgnoreRule.ignores_iff, and_assoc]
  | false => simp [KeptAt, hdirectory, IsTaken, hlast, ← IgnoreRule.ignores_iff, and_assoc]

theorem mem_keptEntries_iff {entries : List (String × FileTree)} :
    names ∈ keptEntries rules above entries ↔ ∃ entry ∈ entries, KeptAt rules above names entry.1 entry.2 := by
  induction entries with
  | nil => simp [keptEntries]
  | cons entry rest ih => rw [mem_keptEntries_cons, ih, List.exists_mem_cons_iff]

mutual

/-- What is kept of a directory are files that are not left out, below directories that are searched. -/
theorem exists_of_mem_kept : (tree : FileTree) → (above : List String) → tree.Proper →
    names ∈ kept rules above tree →
      ∃ below, below ≠ [] ∧ names = above ++ below ∧ tree.HasFile below ∧ Unpruned rules above below
  | .directory entries, above, hproper, hmem => by
      obtain ⟨name, below, sub, hsub, rfl, hfile, hunpruned⟩ :=
        exists_of_mem_keptEntries entries above hproper.2 hmem
      exact ⟨name :: below, List.cons_ne_nil _ _, rfl,
        FileTree.HasFile.cons_iff.mpr ⟨sub, hproper.lookup_iff.mpr hsub, hfile⟩, hunpruned⟩
  | .file .., _, _, hmem | .deadLink, _, _, hmem => nomatch hmem

theorem exists_of_mem_keptEntries : (entries : List (String × FileTree)) → (above : List String) →
    FileTree.EntriesProper entries → names ∈ keptEntries rules above entries →
      ∃ name below sub, (name, sub) ∈ entries ∧ names = above ++ name :: below ∧ sub.HasFile below ∧
        Unpruned rules above (name :: below)
  | [], _, _, hmem => nomatch hmem
  | (name, tree) :: rest, above, hproper, hmem => by
      rcases mem_keptEntries_cons.mp hmem with (⟨-, hsearched, hkept⟩ | ⟨hfile, htaken, rfl⟩) | hrest
      · obtain ⟨below, hne, rfl, hfile, hunpruned⟩ :=
          exists_of_mem_kept tree (above ++ [name]) hproper.2.1 hkept
        exact ⟨name, below, tree, List.mem_cons_self, by simp, hfile,
          (unpruned_cons hne).mpr ⟨hsearched, hunpruned⟩⟩
      · exact ⟨name, [], tree, List.mem_cons_self, rfl, ⟨tree, rfl, hfile⟩, unpruned_singleton.mpr htaken⟩
      · obtain ⟨found, below, sub, hsub, hnames, hfile, hunpruned⟩ :=
          exists_of_mem_keptEntries rest above hproper.2.2 hrest
        exact ⟨found, below, sub, List.mem_cons_of_mem _ hsub, hnames, hfile, hunpruned⟩

end

/-- Such files are kept. -/
theorem mem_kept_of_unpruned {tree : FileTree} (hproper : tree.Proper) (hne : below ≠ [])
    (hfile : tree.HasFile below) (h : Unpruned rules above below) : above ++ below ∈ kept rules above tree := by
  induction below generalizing tree above with
  | nil => exact absurd rfl hne
  | cons name below ih =>
      cases tree with
      | directory entries =>
          obtain ⟨sub, hsub, hrest⟩ := FileTree.HasFile.cons_iff.mp hfile
          have hmem := hproper.lookup_iff.mp hsub
          rw [kept, mem_keptEntries_iff]
          refine ⟨(name, sub), hmem, ?_⟩
          by_cases hlast : below = []
          · subst hlast
            obtain ⟨part, hpart, hkind⟩ := hrest
            obtain rfl := Option.some.inj hpart
            exact .inr ⟨hkind, unpruned_singleton.mp h, rfl⟩
          · obtain ⟨hsearched, hunpruned⟩ := (unpruned_cons hlast).mp h
            have hkept := ih (FileTree.entriesProper_iff.mp hproper.2 _ hmem).2 hlast hrest hunpruned
            refine .inl ⟨?_, hsearched, by simpa using hkept⟩
            cases sub with
            | directory => rfl
            | _ => cases hkept
      | _ => obtain ⟨part, hpart, -⟩ := hfile; cases hpart

theorem mem_kept_iff {tree : FileTree} (hproper : tree.Proper) :
    names ∈ kept rules above tree ↔
      ∃ below, below ≠ [] ∧ names = above ++ below ∧ tree.HasFile below ∧ Unpruned rules above below := by
  refine ⟨exists_of_mem_kept tree above hproper, ?_⟩
  rintro ⟨below, hne, rfl, hfile, hunpruned⟩
  exact mem_kept_of_unpruned hproper hne hfile hunpruned

end Locate

end DocCompiler
