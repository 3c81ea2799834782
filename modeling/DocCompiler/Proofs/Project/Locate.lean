import DocCompiler.Proofs.Data.Sorted
import DocCompiler.Proofs.Data.Result
import DocCompiler.Proofs.Project.Prune
import Mathlib.Data.List.Perm.Basic

/-!
The sources of a project are the files that a filter over all files lets through, whatever the order of the
roots and however they overlap: the search below a root leaves out what the filter leaves out.
-/

namespace DocCompiler

section Names

/-- Names without slashes can be told from the path that they make up. -/
theorem Text.eq_of_joinWith_slash {names others : List String} (hnames : ∀ name ∈ names, '/' ∉ name.toList)
    (hothers : ∀ name ∈ others, '/' ∉ name.toList) (hne : names ≠ []) (hother : others ≠ [])
    (h : Text.joinWith "/" names = Text.joinWith "/" others) : names = others := by
  have hsplit {parts : List String} (hparts : ∀ name ∈ parts, '/' ∉ name.toList) (hne : parts ≠ []) :
      (Text.joinWith "/" parts).toList.splitOn '/' = parts.map String.toList := by
    rw [Text.joinWith, String.toList_intercalate]
    exact List.splitOn_intercalate '/' (List.forall_mem_map.mpr hparts) (by simpa using hne)
  refine (List.map_injective_iff.mpr fun _ _ => String.toList_inj.mp) ?_
  rw [← hsplit hnames hne, ← hsplit hothers hother, h]

theorem Path.up_notMem_climb {done names : List String} (h : ".." ∉ done) : ".." ∉ Path.climb done names := by
  fun_induction Path.climb done names with
  | case1 done => simpa using h
  | case2 done rest ih => exact ih fun hmem => h (List.mem_of_mem_tail hmem)
  | case3 done name rest hname ih => exact ih (by simpa [h] using Ne.symm hname)

theorem Path.relativeTo?_eq_some_iff {directory path below : Path} :
    directory.relativeTo? path = some below ↔
      path = ⟨directory.root, directory.names ++ below.names⟩ ∧ below.root = "" := by
  rcases path with ⟨root, names⟩
  rcases below with ⟨none, part⟩
  simp only [Path.relativeTo?, Option.ite_none_right_eq_some, Bool.and_eq_true, decide_eq_true_eq,
    List.isPrefixOf_iff_prefix, Option.some.injEq, Path.mk.injEq]
  constructor
  · rintro ⟨⟨rfl, rest, rfl⟩, rfl, rfl⟩
    simp
  · rintro ⟨⟨rfl, rfl⟩, rfl⟩
    simp

end Names

namespace FileTree

variable {tree : FileTree} {names : List String} {path : Path}

/-- Names that do not lead up lead where they are found. -/
theorem walk_eq_find? {done : List String} (h : ".." ∉ names) :
    tree.walk done names = tree.find? (done.reverse ++ names) := by
  induction names generalizing done with
  | nil => rw [walk, List.append_nil]
  | cons name names ih =>
      rw [List.mem_cons, not_or] at h
      rw [walk, ih h.2, List.reverse_cons, List.append_assoc, List.singleton_append]
      exact fun hup => h.1 hup.symm

theorem follow?_eq_some_directory_iff {entries : List (String × FileTree)} (h : ".." ∉ path.names) :
    tree.follow? path = some (.directory entries) ↔ tree.find? path.names = some (.directory entries) := by
  rw [follow?, walk_eq_find? h, List.reverse_nil, List.nil_append]
  split
  · next hfound => rw [hfound]; exact ⟨nofun, nofun⟩
  · exact Iff.rfl

end FileTree

namespace Locate

variable {project root : Path} {settings : SourceSettings} {rules : List IgnoreRule} {tree : FileTree}
  {supported : String → Bool} {names above : List String} {source : LocatedSource}

/-- A file of a project as a source. -/
def sourceAt (project : Path) (names : List String) : LocatedSource where
  identity := Text.joinWith "/" names
  path := ⟨project.root, project.names ++ names⟩

/-- A directory of a project that one of the roots leads to, by its names from the project on. -/
def IsRootAt (project : Path) (settings : SourceSettings) (tree : FileTree) (above : List String) : Prop :=
  ∃ text ∈ settings.roots, project.resolve (.ofText text) = ⟨project.root, project.names ++ above⟩ ∧
    tree.HasDirectory (project.names ++ above)

/-- A file of a project that is to be located: one that stands below a root, with no directory between that
is left out, is not left out itself, and is taken in by the patterns and supported. -/
structure Wanted (project : Path) (settings : SourceSettings) (rules : List IgnoreRule)
    (supported : String → Bool) (tree : FileTree) (names : List String) : Prop where
  file : tree.HasFile (project.names ++ names)
  below : ∃ above part, IsRootAt project settings tree above ∧ part ≠ [] ∧ names = above ++ part ∧
    Unpruned rules above part
  included : isIncluded settings.included (Text.joinWith "/" names) = true
  supported : supported (Text.joinWith "/" names) = true

/-- All roots lead into the project. -/
def RootsInside (project : Path) (settings : SourceSettings) : Prop :=
  ∀ text ∈ settings.roots, (project.relativeTo? (project.resolve (.ofText text))).isSome = true

theorem Wanted.ne_nil (h : Wanted project settings rules supported tree names) : names ≠ [] := by
  obtain ⟨above, part, -, hne, rfl, -⟩ := h.below
  exact List.append_ne_nil_of_right_ne_nil above hne

/-- Two files that are to be located have different identities. -/
theorem Wanted.eq_of_identity (htree : tree.Proper) {others : List String}
    (h : Wanted project settings rules supported tree names)
    (hothers : Wanted project settings rules supported tree others)
    (heq : (sourceAt project names).identity = (sourceAt project others).identity) : names = others := by
  have hslash {names : List String} (h : Wanted project settings rules supported tree names) :
      ∀ name ∈ names, '/' ∉ name.toList := by
    obtain ⟨part, hpart, -⟩ := h.file
    exact fun name hname => (htree.of_find? hpart).2 name (List.mem_append_right _ hname)
  exact Text.eq_of_joinWith_slash (hslash h) (hslash hothers) h.ne_nil hothers.ne_nil heq

section Root

theorem up_notMem_resolve (project path : Path) : ".." ∉ (project.resolve path).names :=
  Path.up_notMem_climb List.not_mem_nil

/-- A root that can be looked at is a directory when its names lead to one. -/
theorem isRoot_iff {text : String} {found : Bool} (h : isRoot project tree text = .ok found) :
    found = true ↔ tree.HasDirectory (project.resolve (.ofText text)).names := by
  unfold isRoot at h
  dsimp only at h
  split_ifs at h with hnull
  split at h
  · next found hlook =>
    obtain rfl := Except.ok.inj h
    obtain ⟨part, hpart, hfound⟩ := Result.bind_eq_ok_iff.mp hlook
    rw [FileTree.look, if_neg hnull] at hpart
    split_ifs at hpart
    obtain rfl := Except.ok.inj hpart
    rw [Result.pure_eq_ok_iff] at hfound
    rw [← hfound, Option.any_eq_true]
    constructor
    · rintro ⟨part, hpart, hkind⟩
      cases part with
      | directory entries =>
          exact ⟨entries, (FileTree.follow?_eq_some_directory_iff (up_notMem_resolve _ _)).mp hpart⟩
      | _ => cases hkind
    · rintro ⟨entries, hentries⟩
      exact ⟨_, (FileTree.follow?_eq_some_directory_iff (up_notMem_resolve _ _)).mpr hentries, rfl⟩
  · cases h

end Root

/-- The sources under a root are the files below it that the rules, the patterns and the support let
through. -/
theorem mem_under_iff (htree : tree.Proper) (hup : ".." ∉ project.names ++ above)
    (hdirectory : tree.HasDirectory (project.names ++ above)) {patterns : List String} :
    source ∈ under project rules patterns supported tree ⟨project.root, project.names ++ above⟩ ↔
      ∃ part, part ≠ [] ∧ tree.HasFile (project.names ++ (above ++ part)) ∧ Unpruned rules above part ∧
        isIncluded patterns (Text.joinWith "/" (above ++ part)) = true ∧
        supported (Text.joinWith "/" (above ++ part)) = true ∧ source = sourceAt project (above ++ part) := by
  obtain ⟨entries, hentries⟩ := hdirectory
  have hbase : project.relativeTo? ⟨project.root, project.names ++ above⟩ = some ⟨"", above⟩ :=
    Path.relativeTo?_eq_some_iff.mpr ⟨rfl, rfl⟩
  have hfollow : tree.follow? ⟨project.root, project.names ++ above⟩ = some (.directory entries) :=
    (FileTree.follow?_eq_some_directory_iff hup).mpr hentries
  have hidentity {names : List String} (hne : names ≠ []) :
      identityOf project ⟨project.root, project.names ++ names⟩ = Text.joinWith "/" names := by
    have hrelative : project.relativeTo? ⟨project.root, project.names ++ names⟩ = some ⟨"", names⟩ :=
      Path.relativeTo?_eq_some_iff.mpr ⟨rfl, rfl⟩
    simp [identityOf, hrelative, Path.text, hne]
  have hfile {part : List String} : (FileTree.directory entries).HasFile part ↔
      tree.HasFile (project.names ++ (above ++ part)) := by
    simp only [FileTree.HasFile]
    rw [← List.append_assoc, FileTree.find?_append, hentries, Option.bind_some]
  simp only [under, hbase, hfollow, List.mem_filterMap, mem_kept_iff (htree.of_find? hentries).1]
  constructor
  · rintro ⟨_, ⟨part, hne, rfl, hpart, hunpruned⟩, hsource⟩
    rw [hidentity (List.append_ne_nil_of_right_ne_nil above hne)] at hsource
    split_ifs at hsource with hkept
    obtain ⟨hincluded, hsupported⟩ := Bool.and_eq_true_iff.mp hkept
    exact ⟨part, hne, hfile.mp hpart, hunpruned, hincluded, hsupported, (Option.some.inj hsource).symm⟩
  · rintro ⟨part, hne, hpart, hunpruned, hincluded, hsupported, rfl⟩
    refine ⟨above ++ part, ⟨part, hne, rfl, hfile.mpr hpart, hunpruned⟩, ?_⟩
    rw [hidentity (List.append_ne_nil_of_right_ne_nil above hne), hincluded, hsupported]
    rfl

section Sorting

variable {sources : List LocatedSource}

/-- Sources in the order in which they are found, with one more unless its identity is there. -/
def keepFirst (found : List LocatedSource) (source : LocatedSource) : List LocatedSource :=
  if found.any (·.identity == source.identity) then found else found ++ [source]

theorem mem_keepFirst {found : List LocatedSource} {other : LocatedSource} (h : other ∈ keepFirst found source) :
    other ∈ found ∨ other = source := by
  rw [keepFirst] at h
  split_ifs at h with hany
  · exact .inl h
  · exact (List.mem_append.mp h).imp_right List.mem_singleton.mp

theorem mem_identities_keepFirst {found : List LocatedSource} {identity : String} :
    identity ∈ (keepFirst found source).map (·.identity) ↔
      identity ∈ found.map (·.identity) ∨ identity = source.identity := by
  rw [keepFirst]
  split_ifs with hany
  · obtain ⟨earlier, hearlier, hsame⟩ := List.any_eq_true.mp hany
    refine (or_iff_left_of_imp ?_).symm
    rintro rfl
    exact List.mem_map.mpr ⟨earlier, hearlier, beq_iff_eq.mp hsame⟩
  · simp

theorem nodup_identities_keepFirst {found : List LocatedSource} (h : (found.map (·.identity)).Nodup) :
    ((keepFirst found source).map (·.identity)).Nodup := by
  rw [keepFirst]
  split_ifs with hany
  · exact h
  · simp only [List.any_eq_true, beq_iff_eq, not_exists, not_and] at hany
    rw [List.map_append, List.nodup_append]
    refine ⟨h, List.nodup_singleton _, fun identity hidentity other hother heq => ?_⟩
    obtain ⟨earlier, hearlier, rfl⟩ := List.mem_map.mp hidentity
    exact hany earlier hearlier (heq.trans (List.mem_singleton.mp hother))

theorem mem_foldl_keepFirst {found : List LocatedSource} (h : source ∈ sources.foldl keepFirst found) :
    source ∈ found ∨ source ∈ sources := by
  induction sources generalizing found with
  | nil => exact .inl h
  | cons first rest ih =>
      rcases ih h with hfound | hrest
      · exact (mem_keepFirst hfound).imp_right fun hfirst => List.mem_cons.mpr (.inl hfirst)
      · exact .inr (List.mem_cons_of_mem _ hrest)

theorem mem_identities_foldl_keepFirst {found : List LocatedSource} {identity : String} :
    identity ∈ (sources.foldl keepFirst found).map (·.identity) ↔
      identity ∈ found.map (·.identity) ∨ identity ∈ sources.map (·.identity) := by
  induction sources generalizing found with
  | nil => simp
  | cons first rest ih =>
      rw [List.foldl_cons, ih, mem_identities_keepFirst, List.map_cons, List.mem_cons, or_assoc]

theorem nodup_identities_foldl_keepFirst {found : List LocatedSource} (h : (found.map (·.identity)).Nodup) :
    ((sources.foldl keepFirst found).map (·.identity)).Nodup := by
  induction sources generalizing found with
  | nil => exact h
  | cons first rest ih => exact ih (nodup_identities_keepFirst h)

theorem sortSources_eq (sources : List LocatedSource) :
    sortSources sources = (sources.foldl keepFirst []).mergeSort (Keyed.le (·.identity)) :=
  rfl

/-- Sources are located once each. -/
theorem nodup_sortSources (sources : List LocatedSource) : ((sortSources sources).map (·.identity)).Nodup := by
  rw [sortSources_eq]
  exact ((List.mergeSort_perm _ _).map _).nodup_iff.mpr (nodup_identities_foldl_keepFirst List.nodup_nil)

theorem pairwise_sortSources (sources : List LocatedSource) :
    (sortSources sources).Pairwise fun a b => a.identity < b.identity := by
  have hsorted := Keyed.pairwise_mergeSort (·.identity) (sources.foldl keepFirst [])
  have hdistinct := List.pairwise_map.mp (nodup_sortSources sources)
  rw [sortSources_eq] at hdistinct ⊢
  refine (hsorted.and hdistinct).imp fun ⟨hle, hne⟩ => ?_
  exact String.not_le.mp fun hge => hne (String.le_antisymm (of_decide_eq_true hle) hge)

/-- Sorting keeps all sources when each identity stands for one of them. -/
theorem mem_sortSources_iff
    (h : ∀ first ∈ sources, ∀ second ∈ sources, first.identity = second.identity → first = second) :
    source ∈ sortSources sources ↔ source ∈ sources := by
  rw [sortSources_eq, List.mem_mergeSort]
  have hkept {source : LocatedSource} (h : source ∈ sources.foldl keepFirst []) : source ∈ sources :=
    (mem_foldl_keepFirst h).resolve_left List.not_mem_nil
  refine ⟨hkept, fun hsource => ?_⟩
  have hidentity : source.identity ∈ (sources.foldl keepFirst []).map (·.identity) :=
    mem_identities_foldl_keepFirst.mpr (.inr (List.mem_map_of_mem hsource))
  obtain ⟨other, hother, hsame⟩ := List.mem_map.mp hidentity
  rwa [← h other (hkept hother) source hsource hsame]

end Sorting

section Present

/-- The roots as they are looked at. -/
def look (project : Path) (tree : FileTree) (roots : List String) : Except LocateError (List (String × Bool)) :=
  roots.mapM fun text => return (text, ← isRoot project tree text)

/-- Those of the roots that are directories. -/
def present (looked : List (String × Bool)) : List String :=
  (looked.filter (·.2)).map (·.1)

/-- What is under the roots that are directories. -/
def foundUnder (project : Path) (settings : SourceSettings) (rules : List IgnoreRule)
    (supported : String → Bool) (tree : FileTree) (looked : List (String × Bool)) : List LocatedSource :=
  (present looked).flatMap fun text =>
    under project rules settings.included supported tree (project.resolve (.ofText text))

theorem look_ok_iff {roots : List String} :
    (∃ looked, look project tree roots = .ok looked) ↔
      ∀ text ∈ roots, ∃ found, isRoot project tree text = .ok found := by
  constructor
  · rintro ⟨looked, hlooked⟩ text htext
    obtain ⟨_, -, hfound⟩ := Result.ok_of_mapM_eq_ok hlooked htext
    obtain ⟨found, hroot, -⟩ := Result.bind_eq_ok_iff.mp hfound
    exact ⟨found, hroot⟩
  · intro h
    refine Result.mapM_ok_of_forall fun text htext => ?_
    obtain ⟨found, hfound⟩ := h text htext
    exact ⟨(text, found), by rw [hfound]; rfl⟩

theorem mem_present_iff {roots : List String} {looked : List (String × Bool)} {text : String}
    (h : look project tree roots = .ok looked) :
    text ∈ present looked ↔ text ∈ roots ∧ isRoot project tree text = .ok true := by
  constructor
  · intro htext
    obtain ⟨⟨_, found⟩, hmem, rfl⟩ := List.mem_map.mp htext
    obtain ⟨hmem, rfl⟩ := List.mem_filter.mp hmem
    obtain ⟨text, hroot, hlook⟩ := Result.mem_of_mapM_eq_ok h hmem
    obtain ⟨found, hfound, heq⟩ := Result.bind_eq_ok_iff.mp hlook
    obtain ⟨rfl, rfl⟩ := Prod.mk.inj (Result.pure_eq_ok_iff.mp heq)
    exact ⟨hroot, hfound⟩
  · rintro ⟨htext, hroot⟩
    obtain ⟨entry, hmem, hlook⟩ := Result.ok_of_mapM_eq_ok h htext
    rw [hroot] at hlook
    obtain rfl := Except.ok.inj hlook
    exact List.mem_map.mpr ⟨_, List.mem_filter.mpr ⟨hmem, rfl⟩, rfl⟩

/-- Sources are located when the rules can be read, all roots can be looked at and one is a directory. -/
theorem locateSources_eq_ok_iff {located : Located} :
    locateSources project settings supported tree = .ok located ↔
      ∃ rules looked, rulesOf project tree settings = .ok rules ∧ look project tree settings.roots = .ok looked ∧
        present looked ≠ [] ∧ located = {
          sources := sortSources (foundUnder project settings rules supported tree looked)
          missing := (looked.filter (!·.2)).map (·.1)
          roots := (present looked).length } := by
  simp only [locateSources, Result.bind_eq_ok_iff, List.partition_eq_filter_filter]
  constructor
  · rintro ⟨rules, hrules, looked, hlooked, h⟩
    split at h
    · cases h
    · next hsome =>
      exact ⟨rules, looked, hrules, hlooked, by simpa [present] using hsome, (Except.ok.inj h).symm⟩
  · rintro ⟨rules, looked, hrules, hlooked, hsome, rfl⟩
    refine ⟨rules, hrules, looked, hlooked, ?_⟩
    split
    · next hnone => exact absurd (List.isEmpty_iff.mp hnone) hsome
    · rfl

end Present

section Filter

theorem isRootAt_iff
    (hlooked : ∀ text ∈ settings.roots, ∃ found, isRoot project tree text = .ok found) :
    IsRootAt project settings tree above ↔ ∃ text ∈ settings.roots, isRoot project tree text = .ok true ∧
      project.resolve (.ofText text) = ⟨project.root, project.names ++ above⟩ := by
  refine exists_congr fun text => and_congr_right fun htext => ?_
  obtain ⟨found, hfound⟩ := hlooked text htext
  rw [and_comm]
  refine and_congr_left fun hpath => ?_
  have hroot := isRoot_iff hfound
  rw [hpath] at hroot
  rw [← hroot, hfound, Except.ok.injEq]

theorem exists_isRootAt_iff (hinside : RootsInside project settings)
    (hlooked : ∀ text ∈ settings.roots, ∃ found, isRoot project tree text = .ok found) :
    (∃ above, IsRootAt project settings tree above) ↔
      ∃ text ∈ settings.roots, isRoot project tree text = .ok true := by
  simp only [isRootAt_iff hlooked]
  constructor
  · rintro ⟨above, text, htext, hroot, -⟩
    exact ⟨text, htext, hroot⟩
  · rintro ⟨text, htext, hroot⟩
    obtain ⟨below, hbelow⟩ := Option.isSome_iff_exists.mp (hinside text htext)
    exact ⟨below.names, text, htext, hroot, (Path.relativeTo?_eq_some_iff.mp hbelow).1⟩

theorem mem_foundUnder_iff (htree : tree.Proper) (hinside : RootsInside project settings)
    {looked : List (String × Bool)} (hlooked : look project tree settings.roots = .ok looked) :
    source ∈ foundUnder project settings rules supported tree looked ↔
      ∃ names, Wanted project settings rules supported tree names ∧ source = sourceAt project names := by
  have hall := look_ok_iff.mp ⟨looked, hlooked⟩
  rw [foundUnder, List.mem_flatMap]
  constructor
  · rintro ⟨text, htext, hsource⟩
    obtain ⟨htext, hroot⟩ := (mem_present_iff hlooked).mp htext
    obtain ⟨⟨_, above⟩, hbelow⟩ := Option.isSome_iff_exists.mp (hinside text htext)
    have hpath := (Path.relativeTo?_eq_some_iff.mp hbelow).1
    have hdirectory := (isRoot_iff hroot).mp rfl
    have hup := up_notMem_resolve project (.ofText text)
    rw [hpath] at hsource hdirectory hup
    obtain ⟨part, hne, hfile, hunpruned, hincluded, hsupported, rfl⟩ :=
      (mem_under_iff htree hup hdirectory).mp hsource
    exact ⟨above ++ part, ⟨hfile, ⟨above, part, ⟨text, htext, hpath, hdirectory⟩, hne, rfl, hunpruned⟩, hincluded,
      hsupported⟩, rfl⟩
  · rintro ⟨names, hwanted, rfl⟩
    obtain ⟨above, part, hroot, hne, rfl, hunpruned⟩ := hwanted.below
    obtain ⟨text, htext, hroot, hpath⟩ := (isRootAt_iff hall).mp hroot
    have hdirectory := (isRoot_iff hroot).mp rfl
    have hup := up_notMem_resolve project (.ofText text)
    rw [hpath] at hdirectory hup
    refine ⟨text, (mem_present_iff hlooked).mpr ⟨htext, hroot⟩, ?_⟩
    rw [hpath]
    exact (mem_under_iff htree hup hdirectory).mpr
      ⟨part, hne, hwanted.file, hunpruned, hwanted.included, hwanted.supported, rfl⟩

/-- What is located is what is wanted, in the order of the identities. -/
theorem sources_of_locateSources (htree : tree.Proper) (hinside : RootsInside project settings) {located : Located}
    (hrules : rulesOf project tree settings = .ok rules)
    (h : locateSources project settings supported tree = .ok located) :
    (located.sources.Pairwise fun a b => a.identity < b.identity) ∧
      ∀ source, source ∈ located.sources ↔
        ∃ names, Wanted project settings rules supported tree names ∧ source = sourceAt project names := by
  obtain ⟨_, looked, hread, hlooked, -, rfl⟩ := locateSources_eq_ok_iff.mp h
  obtain rfl := Except.ok.inj (hrules.symm.trans hread)
  refine ⟨pairwise_sortSources _, fun source => ?_⟩
  rw [← mem_foundUnder_iff htree hinside hlooked]
  refine mem_sortSources_iff fun first hfirst second hsecond hsame => ?_
  obtain ⟨names, hnames, rfl⟩ := (mem_foundUnder_iff htree hinside hlooked).mp hfirst
  obtain ⟨others, hothers, rfl⟩ := (mem_foundUnder_iff htree hinside hlooked).mp hsecond
  rw [hnames.eq_of_identity htree hothers hsame]

theorem locateSources_ok_iff (hinside : RootsInside project settings) :
    (∃ located, locateSources project settings supported tree = .ok located) ↔
      (∃ rules, rulesOf project tree settings = .ok rules) ∧
        (∀ text ∈ settings.roots, ∃ found, isRoot project tree text = .ok found) ∧
        ∃ above, IsRootAt project settings tree above := by
  constructor
  · rintro ⟨located, h⟩
    obtain ⟨rules, looked, hrules, hlooked, hsome, -⟩ := locateSources_eq_ok_iff.mp h
    have hall := look_ok_iff.mp ⟨looked, hlooked⟩
    obtain ⟨text, htext⟩ := List.exists_mem_of_ne_nil _ hsome
    exact ⟨⟨rules, hrules⟩, hall,
      (exists_isRootAt_iff hinside hall).mpr ⟨text, (mem_present_iff hlooked).mp htext⟩⟩
  · rintro ⟨⟨rules, hrules⟩, hall, hroot⟩
    obtain ⟨looked, hlooked⟩ := look_ok_iff.mpr hall
    obtain ⟨text, htext⟩ := (exists_isRootAt_iff hinside hall).mp hroot
    exact ⟨_, locateSources_eq_ok_iff.mpr ⟨rules, looked, hrules, hlooked,
      List.ne_nil_of_mem ((mem_present_iff hlooked).mpr htext), rfl⟩⟩

/-- Sources in the order of their identities are determined by which they are. -/
theorem eq_of_pairwise_identity {sources others : List LocatedSource}
    (hsources : sources.Pairwise fun a b => a.identity < b.identity)
    (hothers : others.Pairwise fun a b => a.identity < b.identity)
    (h : ∀ source, source ∈ sources ↔ source ∈ others) : sources = others := by
  have hnodup {sources : List LocatedSource} (h : sources.Pairwise fun a b => a.identity < b.identity) :
      sources.Nodup :=
    h.imp fun hlt => ne_of_apply_ne (·.identity) (String.ne_of_lt hlt)
  have hperm : sources.Perm others := (List.perm_ext_iff_of_nodup (hnodup hsources) (hnodup hothers)).mpr h
  exact hperm.eq_of_pairwise (fun _ _ _ _ hlt hgt => absurd hgt (String.lt_asymm hlt)) hsources hothers

theorem isRootAt_roots_iff {roots : List String} (h : ∀ text, text ∈ roots ↔ text ∈ settings.roots) :
    IsRootAt project { settings with roots } tree above ↔ IsRootAt project settings tree above :=
  exists_congr fun text => and_congr_left' (h text)

/-- Which files are wanted does not depend on the order of the roots. -/
theorem wanted_roots_iff {roots : List String} (h : ∀ text, text ∈ roots ↔ text ∈ settings.roots) :
    Wanted project { settings with roots } rules supported tree names ↔
      Wanted project settings rules supported tree names := by
  constructor
  · rintro ⟨hfile, ⟨above, part, hat, hrest⟩, hincluded, hsupported⟩
    exact ⟨hfile, ⟨above, part, (isRootAt_roots_iff h).mp hat, hrest⟩, hincluded, hsupported⟩
  · rintro ⟨hfile, ⟨above, part, hat, hrest⟩, hincluded, hsupported⟩
    exact ⟨hfile, ⟨above, part, (isRootAt_roots_iff h).mpr hat, hrest⟩, hincluded, hsupported⟩

/-- A project in which all roots lead into it. Locating succeeds when the rules can be read, all roots can be
looked at and one of them is a directory. What is located then is what a filter over all files lets through,
once each and in the order of the identities, and the order of the roots does not matter. -/
theorem locateSources_filters (htree : tree.Proper) (hinside : RootsInside project settings) :
    ((∃ located, locateSources project settings supported tree = .ok located) ↔
      (∃ rules, rulesOf project tree settings = .ok rules) ∧
        (∀ text ∈ settings.roots, ∃ found, isRoot project tree text = .ok found) ∧
        ∃ above, IsRootAt project settings tree above) ∧
      ∀ rules located, rulesOf project tree settings = .ok rules →
        locateSources project settings supported tree = .ok located →
        (located.sources.Pairwise fun a b => a.identity < b.identity) ∧
          (∀ source, source ∈ located.sources ↔
            ∃ names, Wanted project settings rules supported tree names ∧ source = sourceAt project names) ∧
          ∀ roots, (∀ text, text ∈ roots ↔ text ∈ settings.roots) →
            ∃ other, locateSources project { settings with roots } supported tree = .ok other ∧
              other.sources = located.sources := by
  refine ⟨locateSources_ok_iff hinside, fun rules located hrules h => ?_⟩
  obtain ⟨hsorted, hmem⟩ := sources_of_locateSources htree hinside hrules h
  refine ⟨hsorted, hmem, fun roots hroots => ?_⟩
  have hinside' : RootsInside project { settings with roots } := fun text htext => hinside text ((hroots text).mp htext)
  obtain ⟨-, hall, hroot⟩ := (locateSources_ok_iff hinside).mp ⟨located, h⟩
  obtain ⟨other, hother⟩ : ∃ other, locateSources project { settings with roots } supported tree = .ok other :=
    (locateSources_ok_iff hinside').mpr
      ⟨⟨rules, hrules⟩, fun text htext => hall text ((hroots text).mp htext),
        hroot.imp fun _ => (isRootAt_roots_iff hroots).mpr⟩
  refine ⟨other, hother, ?_⟩
  obtain ⟨hsorted', hmem'⟩ := sources_of_locateSources htree hinside' hrules hother
  refine eq_of_pairwise_identity hsorted' hsorted fun source => ?_
  rw [hmem', hmem]
  exact exists_congr fun names => and_congr_left' (wanted_roots_iff hroots)

/-- A project with a directory that is left out, and another one in it that is never searched. -/
def generated : FileTree :=
  .directory [("p", .directory [
    (".gitignore", .file (Text.encode "gen/\n") 0),
    ("app", .directory [
      ("A.php", .file [] 0),
      ("gen", .directory [("B.php", .file [] 0), ("vendor", .directory [("C.php", .file [] 0)])])])])]

/-- The directory that is left out is searched when it is a root itself, wherever it stands among the roots. -/
theorem locateSources_filters_generated :
    generated.Proper ∧ RootsInside ⟨"/", ["p"]⟩ { roots := [".", "app/gen", "app"] } ∧
      ∃ located, locateSources ⟨"/", ["p"]⟩ { roots := [".", "app/gen", "app"] }
          (Text.endsWith ".php") generated = .ok located ∧
        located.sources = [sourceAt ⟨"/", ["p"]⟩ ["app", "A.php"], sourceAt ⟨"/", ["p"]⟩ ["app", "gen", "B.php"]] ∧
        ∃ other, locateSources ⟨"/", ["p"]⟩ { roots := ["app", "app/gen", ".", "app"] }
            (Text.endsWith ".php") generated = .ok other ∧
          other.sources = located.sources := by
  have htree : generated.Proper := by
    simp [generated, FileTree.Proper, FileTree.EntriesProper]
  have hinside : RootsInside ⟨"/", ["p"]⟩ { roots := [".", "app/gen", "app"] } := by
    unfold RootsInside
    decide +kernel
  have hrules : rulesOf ⟨"/", ["p"]⟩ generated { roots := [".", "app/gen", "app"] } =
      .ok [{ pattern := "gen", directoryOnly := true, anchored := false, negated := false, hasSlash := false }] := by
    decide +kernel
  have hlooked : look ⟨"/", ["p"]⟩ generated [".", "app/gen", "app"] =
      .ok [(".", true), ("app/gen", true), ("app", true)] := by
    decide +kernel
  have hlocated : locateSources ⟨"/", ["p"]⟩ { roots := [".", "app/gen", "app"] } (Text.endsWith ".php") generated =
      .ok _ :=
    locateSources_eq_ok_iff.mpr ⟨_, _, hrules, hlooked, by decide, rfl⟩
  refine ⟨htree, hinside, _, hlocated, ?_,
    ((locateSources_filters htree hinside).2 _ _ hrules hlocated).2.2 _ fun text => ?_⟩
  · -- The sources are found in their order, and sorting them leaves them in it.
    rw [sortSources_eq]
    exact List.mergeSort_of_pairwise (by decide +kernel)
  · simp only [List.mem_cons, List.not_mem_nil, or_false]
    tauto

/-- Nothing is located when no root is there. -/
theorem locateSources_generated_noRoot :
    generated.Proper ∧ RootsInside ⟨"/", ["p"]⟩ { roots := ["legacy"] } ∧
      ¬ ∃ located, locateSources ⟨"/", ["p"]⟩ { roots := ["legacy"] } (Text.endsWith ".php") generated =
        .ok located := by
  refine ⟨by simp [generated, FileTree.Proper, FileTree.EntriesProper], by unfold RootsInside; decide +kernel, ?_⟩
  rintro ⟨located, hlocated⟩
  have hnone : (locateSources ⟨"/", ["p"]⟩ { roots := ["legacy"] } (Text.endsWith ".php") generated).isOk = false := by
    decide +kernel
  rw [hlocated] at hnone
  cases hnone

end Filter

end Locate

end DocCompiler
