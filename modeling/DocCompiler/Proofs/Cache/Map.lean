import DocCompiler.Proofs.Cache.Look
import DocCompiler.Proofs.Cache.Reopen

/-!
A cache as a map that outlives a run. Whenever a cache is not dirty its file holds its entries, up to the order
of the entries of mappings. After any calls and a last one that writes the cache, the cache that is opened from the
file has the unit that was stored last under an identity, nothing where the entry was dropped, and what the file
held before where nothing was done.
-/

namespace DocCompiler

open Annotation

namespace Cache

section Run

/-- A call on an open cache. -/
inductive Call
  | get (identity digest : String)
  | store (unit : AnnotatedUnit) (time : String)
  | prune (identities : List String)
  | persist

/-- A cache and the files after a call, unless the call fails. -/
def Call.run (cache : Cache) (tree : FileTree) : Call → Option (Cache × FileTree)
  | .get identity digest =>
      match cache.get identity digest with
      | .ok (_, after) => some (after, tree)
      | .error _ => none
  | .store unit time => some (cache.store unit time, tree)
  | .prune identities => some (cache.prune identities, tree)
  | .persist =>
      match cache.persist tree with
      | (made, .ok kept) => some (kept, made)
      | (_, .error _) => none

/-- A cache and the files after some calls, unless one of them fails. -/
def runCalls (state : Cache × FileTree) (calls : List Call) : Option (Cache × FileTree) :=
  calls.foldlM (fun state call => call.run state.1 state.2) state

/-- What a cache has for an identity: what it had when it was opened, a unit that was stored, or nothing. -/
inductive Standing
  | held
  | stored (unit : AnnotatedUnit)
  | dropped

/-- What a cache has for an identity after a call, for the cache as it was opened. A look drops an entry that the
cache was opened with when no unit can be made of it. -/
def Standing.after (opened : Cache) (identity : String) (standing : Standing) : Call → Standing
  | .get other digest =>
      match standing with
      | .held => if (opened.effect other digest).dropped? = some identity then .dropped else .held
      | standing => standing
  | .store unit _ => if unit.identity = identity then .stored unit else standing
  | .prune identities => if identity ∈ identities then standing else .dropped
  | .persist => standing

/-- What a cache has for an identity after some calls. -/
def standing (opened : Cache) (identity : String) (calls : List Call) : Standing :=
  calls.foldl (Standing.after opened identity) .held

/-- What is found for a unit when the cache is opened again: a stored unit for its fingerprint only, nothing where
the entry was dropped, and otherwise what is made of the record that there was at first, as it was or with the
entries of its mappings in the order of their keys. -/
def Standing.Finds (opened : Cache) (identity digest : String)
    (found : Except ShapeError (Option AnnotatedUnit)) : Standing → Prop
  | .held => ∃ record, (record = opened.record? identity digest ∨
      record = (opened.record? identity digest).map Datum.sorted) ∧ found = decoded identity record
  | .stored unit => found = .ok (if unit.fingerprint = digest then some unit else none)
  | .dropped => found = .ok none

end Run

section Faithful

variable {path : Path} {signature : String} {cache after kept : Cache} {tree made : FileTree}

/-- A cache with tidy entries, which its file holds unless the cache is dirty. -/
structure Faithful (path : Path) (signature : String) (cache : Cache) (tree : FileTree) : Prop where
  path_eq : cache.path = some path
  signature_eq : cache.signature = signature
  root : tree.isDirectory = true
  tidy : Tidy cache.entries
  honest : cache.dirty = false → Holds path signature tree cache.entries

/-- A cache is faithful as it is opened. -/
theorem faithful_load (hroot : tree.isDirectory = true) (h : load (some path) signature tree = .ok cache) :
    Faithful path signature cache tree := by
  have htidy : cache.path = some path ∧ cache.signature = signature ∧ Tidy cache.entries := by
    have hload := h
    unfold load at hload
    simp only at hload
    split at hload
    · exact tidy_ofContent hload
    · obtain rfl := Except.ok.inj hload
      exact ⟨rfl, rfl, tidy_nil⟩
    · obtain rfl := Except.ok.inj hload
      exact ⟨rfl, rfl, tidy_nil⟩
  exact ⟨htidy.1, htidy.2.1, hroot, htidy.2.2, fun hdirty => ⟨cache, h, hdirty, .inl rfl⟩⟩

/-- A cache that was written is faithful, and not dirty. -/
theorem Faithful.persist (h : Faithful path signature cache tree)
    (hpersist : cache.persist tree = (made, .ok kept)) :
    Faithful path signature kept made ∧ kept.dirty = false ∧ kept.entries = cache.entries := by
  obtain ⟨hdirty, rfl, rfl⟩ | ⟨text, htext, hwrite, rfl⟩ := persist_cases h.path_eq hpersist
  · exact ⟨h, hdirty, rfl⟩
  · have hmade : made.isDirectory = true := by
      have hsame := (FileTree.SameBut.write tree path text).isDirectory_eq
      rw [hwrite] at hsame
      exact hsame.trans h.root
    have hholds := holds_write h.tidy h.root htext hwrite
    rw [h.signature_eq] at hholds
    exact ⟨⟨h.path_eq, h.signature_eq, hmade, h.tidy, fun _ => hholds⟩, rfl, rfl⟩

theorem Faithful.apply (h : Faithful path signature cache tree) (effect : Effect) :
    Faithful path signature (effect.apply cache) tree := by
  cases effect with
  | nothing => exact h
  | hit | miss => exact ⟨h.path_eq, h.signature_eq, h.root, h.tidy, h.honest⟩
  | drop identity => exact ⟨h.path_eq, h.signature_eq, h.root, h.tidy.filter _, nofun⟩

theorem entries_prune (cache : Cache) (identities : List String) :
    (cache.prune identities).entries = cache.entries.filter fun entry => entry.1.isAmong identities := by
  rw [prune]
  split_ifs with hall
  · exact (List.filter_eq_self.mpr (List.all_eq_true.mp hall)).symm
  · rfl

theorem Faithful.prune (h : Faithful path signature cache tree) (identities : List String) :
    Faithful path signature (cache.prune identities) tree := by
  rw [Cache.prune]
  split_ifs with hall
  · exact h
  · refine ⟨h.path_eq, h.signature_eq, h.root, h.tidy.filter _, fun hclean => ?_⟩
    cases hclean

theorem Faithful.store (h : Faithful path signature cache tree) {unit : AnnotatedUnit} (hunit : Fits unit)
    (time : String) : Faithful path signature (cache.store unit time) tree :=
  ⟨h.path_eq, h.signature_eq, h.root, h.tidy.insert (hunit.entry time) rfl, nofun⟩

theorem after_of_get {identity digest : String} {found : Option AnnotatedUnit}
    (h : cache.get identity digest = .ok (found, after)) : after = (cache.effect identity digest).apply cache := by
  have heffect := effect_of_get cache identity digest
  rwa [h] at heffect

/-- A call leaves a faithful cache faithful. -/
theorem Faithful.run (h : Faithful path signature cache tree) {call : Call}
    (hfits : ∀ unit time, call = .store unit time → Fits unit) (hrun : call.run cache tree = some (after, made)) :
    Faithful path signature after made := by
  cases call with
  | get identity digest =>
      simp only [Call.run] at hrun
      split at hrun
      · next hget =>
          obtain ⟨rfl, rfl⟩ := Prod.mk.inj (Option.some.inj hrun)
          rw [after_of_get hget]
          exact h.apply _
      · cases hrun
  | store unit time =>
      obtain ⟨rfl, rfl⟩ := Prod.mk.inj (Option.some.inj hrun)
      exact h.store (hfits unit time rfl) time
  | prune identities =>
      obtain ⟨rfl, rfl⟩ := Prod.mk.inj (Option.some.inj hrun)
      exact h.prune identities
  | persist =>
      simp only [Call.run] at hrun
      split at hrun
      · next hpersist =>
          obtain ⟨rfl, rfl⟩ := Prod.mk.inj (Option.some.inj hrun)
          exact (h.persist hpersist).1
      · cases hrun

theorem runCalls_cons {state last : Cache × FileTree} {call : Call} {calls : List Call}
    (h : runCalls state (call :: calls) = some last) :
    ∃ next, call.run state.1 state.2 = some next ∧ runCalls next calls = some last := by
  rw [runCalls, List.foldlM_cons] at h
  exact Option.bind_eq_some_iff.mp h

theorem Faithful.runCalls {calls : List Call} (h : Faithful path signature cache tree)
    (hfits : ∀ unit time, .store unit time ∈ calls → Fits unit)
    (hrun : runCalls (cache, tree) calls = some (after, made)) : Faithful path signature after made := by
  induction calls generalizing cache tree with
  | nil =>
      obtain ⟨rfl, rfl⟩ := Prod.mk.inj (Option.some.inj hrun)
      exact h
  | cons call calls ih =>
      obtain ⟨⟨next, files⟩, hcall, hrest⟩ := runCalls_cons hrun
      have hnext : Faithful path signature next files :=
        h.run (fun unit time heq => hfits unit time (heq ▸ List.mem_cons_self)) hcall
      exact ih hnext (fun unit time hmem => hfits unit time (List.mem_cons_of_mem _ hmem)) hrest

end Faithful

section Stands

variable {opened cache after again : Cache} {tree made : FileTree} {identity digest : String}
  {standing : Standing}

/-- A cache has for an identity what the calls since it was opened have left there. -/
inductive Stands (opened cache : Cache) (identity : String) : Standing → Prop
  | held (h : Datum.lookup (.text identity) cache.entries = Datum.lookup (.text identity) opened.entries) :
      Stands opened cache identity .held
  | stored (unit : AnnotatedUnit) (time : String) (hidentity : unit.identity = identity) (hfits : Fits unit)
      (h : Datum.lookup (.text identity) cache.entries = some (entryOf unit time)) :
      Stands opened cache identity (.stored unit)
  | dropped (h : Datum.lookup (.text identity) cache.entries = none) : Stands opened cache identity .dropped

theorem Stands.congr (h : Stands opened cache identity standing)
    (hlookup : Datum.lookup (.text identity) after.entries = Datum.lookup (.text identity) cache.entries) :
    Stands opened after identity standing := by
  cases h with
  | held h => exact .held (hlookup.trans h)
  | stored unit time hidentity hfits h => exact .stored unit time hidentity hfits (hlookup.trans h)
  | dropped h => exact .dropped (hlookup.trans h)

theorem record?_of_stored {unit : AnnotatedUnit} {time : String}
    (h : Datum.lookup (.text identity) cache.entries = some (entryOf unit time)) :
    cache.record? identity digest = if unit.fingerprint = digest then some unit.record else none := by
  have hmatch : ((entryOf unit time).field? "fingerprint").any (·.isText digest) =
      decide (unit.fingerprint = digest) := by
    change (Datum.text unit.fingerprint).isText digest = _
    rw [Bool.eq_iff_iff, Datum.isText_iff, decide_eq_true_eq, Datum.text.injEq]
  rw [record?, h]
  simp only [hmatch, decide_eq_true_eq]
  rfl

/-- A unit that was stored is made of its record, so that a look does not drop it. -/
theorem decoded_of_fits {unit : AnnotatedUnit} (h : Fits unit) (style : Json.Style) :
    decoded unit.identity (some (style.ordered unit.record)) = .ok (some unit) := by
  rw [decoded, AnnotatedUnit.ofRecord_ordered h.storable]

theorem Stands.get (h : Stands opened cache identity standing) (other digest : String) :
    Stands opened ((cache.effect other digest).apply cache) identity
      (standing.after opened identity (.get other digest)) := by
  -- A look touches the entry of its own unit only, and drops it when no unit can be made of it; of a stored one it can.
  by_cases hother : other = identity
  · subst hother
    cases h with
    | held h =>
        have heffect : cache.effect other digest = opened.effect other digest :=
          effect_congr (record?_of_lookup h)
        rw [Standing.after]
        simp only [← heffect]
        split_ifs with hdrop
        · refine .dropped ?_
          rw [lookup_apply, if_pos hdrop]
        · refine .held ?_
          rw [lookup_apply, if_neg hdrop, h]
    | stored unit time hidentity hfits h =>
        refine .congr (.stored unit time hidentity hfits h) ?_
        have hkept : (cache.effect other digest).dropped? ≠ some other := by
          rw [effect, record?_of_stored h]
          split_ifs
          · have hunit : AnnotatedUnit.ofRecord other unit.record = .ok unit :=
              hidentity ▸ @AnnotatedUnit.ofRecord_ordered {} unit hfits.storable
            simp [hunit, Effect.dropped?]
          · simp [Effect.dropped?]
        rw [lookup_apply, if_neg hkept]
    | dropped h =>
        refine .dropped ?_
        rw [lookup_apply, h, ite_self]
  · have hkept : (cache.effect other digest).dropped? ≠ some identity := dropped?_effect_ne hother
    have hsame : standing.after opened identity (.get other digest) = standing := by
      cases standing with
      | held => exact if_neg (dropped?_effect_ne hother)
      | stored unit => rfl
      | dropped => rfl
    rw [hsame]
    exact h.congr (by rw [lookup_apply, if_neg hkept])

theorem Stands.store (h : Stands opened cache identity standing) {unit : AnnotatedUnit} (hunit : Fits unit)
    (time : String) :
    Stands opened (cache.store unit time) identity (standing.after opened identity (.store unit time)) := by
  rw [Standing.after]
  split_ifs with hidentity
  · refine .stored unit time hidentity hunit ?_
    rw [Cache.store, hidentity]
    exact Datum.lookup_insertEntry_self (Datum.sameKey_text.mpr rfl)
  · have hother : ¬ (Datum.text unit.identity).sameKey (.text identity) = true :=
      fun hsame => hidentity (Datum.text.inj (Datum.sameKey_text.mp hsame))
    refine h.congr (Datum.lookup_insertEntry_of_ne (Bool.not_eq_true _ ▸ hother) fun entry _ hsame => ?_)
    rwa [Datum.sameKey_text.mp hsame, ← Bool.not_eq_true]

theorem Stands.prune (h : Stands opened cache identity standing) (identities : List String) :
    Stands opened (cache.prune identities) identity (standing.after opened identity (.prune identities)) := by
  have hlookup : Datum.lookup (.text identity) (cache.prune identities).entries =
      if (Datum.text identity).isAmong identities then Datum.lookup (.text identity) cache.entries else none := by
    rw [entries_prune]
    exact Datum.lookup_text_filter (fun key => key.isAmong identities) identity cache.entries
  have hkept : (Datum.text identity).isAmong identities = true ↔ identity ∈ identities := by
    rw [Datum.isAmong_iff]
    simp
  rw [Standing.after]
  split_ifs with hmem
  · exact h.congr (by rw [hlookup, if_pos (hkept.mpr hmem)])
  · exact .dropped (by rw [hlookup, if_neg (mt hkept.mp hmem)])

/-- A call leaves for an identity what it says. -/
theorem Stands.run {path : Path} {signature : String} (h : Stands opened cache identity standing)
    (hfaithful : Faithful path signature cache tree) {call : Call}
    (hfits : ∀ unit time, call = .store unit time → Fits unit) (hrun : call.run cache tree = some (after, made)) :
    Stands opened after identity (standing.after opened identity call) := by
  cases call with
  | get other digest =>
      simp only [Call.run] at hrun
      split at hrun
      · next hget =>
          obtain ⟨rfl, rfl⟩ := Prod.mk.inj (Option.some.inj hrun)
          rw [after_of_get hget]
          exact h.get other digest
      · cases hrun
  | store unit time =>
      obtain ⟨rfl, rfl⟩ := Prod.mk.inj (Option.some.inj hrun)
      exact h.store (hfits unit time rfl) time
  | prune identities =>
      obtain ⟨rfl, rfl⟩ := Prod.mk.inj (Option.some.inj hrun)
      exact h.prune identities
  | persist =>
      simp only [Call.run] at hrun
      split at hrun
      · next hpersist =>
          obtain ⟨rfl, rfl⟩ := Prod.mk.inj (Option.some.inj hrun)
          exact h.congr (by rw [(hfaithful.persist hpersist).2.2])
      · cases hrun

theorem Stands.runCalls {path : Path} {signature : String} {calls : List Call}
    (h : Stands opened cache identity standing) (hfaithful : Faithful path signature cache tree)
    (hfits : ∀ unit time, .store unit time ∈ calls → Fits unit)
    (hrun : Cache.runCalls (cache, tree) calls = some (after, made)) :
    Stands opened after identity (calls.foldl (Standing.after opened identity) standing) := by
  induction calls generalizing cache tree standing with
  | nil =>
      obtain ⟨rfl, rfl⟩ := Prod.mk.inj (Option.some.inj hrun)
      exact h
  | cons call calls ih =>
      obtain ⟨⟨next, files⟩, hcall, hrest⟩ := runCalls_cons hrun
      have hfirst : ∀ unit time, call = .store unit time → Fits unit :=
        fun unit time heq => hfits unit time (heq ▸ List.mem_cons_self)
      exact ih (h.run hfaithful hfirst hcall) (hfaithful.run hfirst hcall)
        (fun unit time hmem => hfits unit time (List.mem_cons_of_mem _ hmem)) hrest

/-- A cache that is opened again finds what the calls have left. -/
theorem Stands.finds (h : Stands opened cache identity standing) (htidy : Tidy cache.entries)
    (hagain : again.entries = cache.entries ∨ .map again.entries = (Datum.map cache.entries).sorted)
    (digest : String) : standing.Finds opened identity digest ((again.get identity digest).map (·.1)) := by
  have hrecord : again.record? identity digest = cache.record? identity digest ∨
      again.record? identity digest = (cache.record? identity digest).map Datum.sorted :=
    hagain.imp (fun hsame => record?_of_lookup (by rw [hsame])) (record?_of_sorted htidy)
  rw [map_fst_get]
  cases h with
  | held h =>
      rw [record?_of_lookup h] at hrecord
      exact ⟨_, hrecord, rfl⟩
  | stored unit time hidentity hfits h =>
      subst hidentity
      rw [record?_of_stored h] at hrecord
      rw [Standing.Finds]
      split_ifs at hrecord ⊢
      · obtain hsame | hsorted := hrecord
        · rw [hsame]
          exact decoded_of_fits hfits {}
        · rw [hsorted]
          exact decoded_of_fits hfits fileStyle
      · obtain hnone | hnone := hrecord <;> rw [hnone] <;> rfl
  | dropped h =>
      have hnone : cache.record? identity digest = none := by rw [record?, h]
      rw [hnone] at hrecord
      obtain hnone | hnone := hrecord <;> rw [hnone] <;> rfl

end Stands

/-- A cache behaves as a map that outlives it. After calls none of which fails, in which units are stored that a
file can hold: when the cache is not dirty, the cache that is opened from the file has the same entries, up to the
order of the entries of mappings; and when the cache is written, the cache that is opened then finds for every unit
what the calls have left. -/
theorem runCalls_map {path : Path} {signature : String} {tree made : FileTree} {opened cache : Cache}
    {calls : List Call} (hroot : tree.isDirectory = true) (hopen : load (some path) signature tree = .ok opened)
    (hfits : ∀ unit time, .store unit time ∈ calls → Fits unit)
    (hrun : runCalls (opened, tree) calls = some (cache, made)) :
    (cache.dirty = false → ∃ again, load (some path) signature made = .ok again ∧
      Datum.Alike (.map cache.entries) (.map again.entries)) ∧
    ∀ kept written, cache.persist made = (written, .ok kept) →
      ∃ again, load (some path) signature written = .ok again ∧ ∀ identity digest,
        (standing opened identity calls).Finds opened identity digest ((again.get identity digest).map (·.1)) := by
  have hopened := faithful_load hroot hopen
  have hfaithful := hopened.runCalls hfits hrun
  constructor
  · intro hdirty
    obtain ⟨again, hagain, -, hentries⟩ := hfaithful.honest hdirty
    refine ⟨again, hagain, ?_⟩
    obtain hsame | hsorted := hentries
    · rw [hsame]
      exact .self _
    · rw [hsorted]
      exact Datum.alike_sorted _
  · intro kept written hpersist
    obtain ⟨hkept, hdirty, hsame⟩ := hfaithful.persist hpersist
    obtain ⟨again, hagain, -, hentries⟩ := hkept.honest hdirty
    rw [hsame] at hentries
    refine ⟨again, hagain, fun identity digest => ?_⟩
    have hstands : Stands opened cache identity (standing opened identity calls) :=
      (Stands.held rfl).runCalls hopened hfits hrun
    exact hstands.finds hfaithful.tidy hentries digest

namespace Drawer

/-- A record whose diagnostic has a mapping for its message, with the entries out of order. -/
def record : Datum :=
  .record [("fingerprint", .text "fp"), ("diagnostics", .list [.record [("phase", .text "parse"),
    ("severity", .text "error"), ("message", .record [("b", .int 1), ("a", .int 2)])]])]

def sortedRecord : Datum :=
  .record [("diagnostics", .list [.record [("message", .record [("a", .int 2), ("b", .int 1)]),
    ("phase", .text "parse"), ("severity", .text "error")]]), ("fingerprint", .text "fp")]

def entries : List (Datum × Datum) :=
  [(.text "a.php", .record [("fingerprint", .text "fp"), ("unit", record)]),
    (.text "b.php", .record [("fingerprint", .text "fp"), ("unit", .record [])])]

def path : Path := ⟨"/", ["cache.json"]⟩

/-- A cache with the record and one that no unit can be made of. -/
def opened : Cache := { path := some path, signature := "s", entries }

def fileText : String := (Json.write {} opened.content).toOption.getD ""

def tree : FileTree := .directory [("cache.json", .file (Text.encode fileText) 0)]

theorem legible_record : record.Legible := by
  have hone (value : Int) (h : value.natAbs < 10) : (Datum.int value).Legible := by
    refine ⟨?_, trivial⟩
    rw [Number.isWritable, Bool.or_eq_true, decide_eq_true_eq]
    exact .inl (h.trans (by decide))
  have hmessage : (Datum.record [("b", .int 1), ("a", .int 2)]).Legible := by
    refine Datum.legible_record (by simp) ?_
    simp only [List.forall_mem_cons]
    exact ⟨hone 1 (by decide), hone 2 (by decide), by simp⟩
  have hdiagnostic : (Datum.record [("phase", .text "parse"), ("severity", .text "error"),
      ("message", .record [("b", .int 1), ("a", .int 2)])]).Legible := by
    refine Datum.legible_record (by simp) ?_
    simp only [List.forall_mem_cons]
    exact ⟨trivial, trivial, hmessage, by simp⟩
  refine Datum.legible_record (by simp) ?_
  simp only [List.forall_mem_cons]
  exact ⟨trivial, ⟨hdiagnostic, trivial⟩, by simp⟩

theorem tidy_opened : Tidy opened.entries := by
  have hentry (unit : Datum) (hunit : unit.Legible) :
      (Datum.record [("fingerprint", .text "fp"), ("unit", unit)]).Legible := by
    refine Datum.legible_record (by simp) ?_
    simp only [List.forall_mem_cons]
    exact ⟨trivial, hunit, by simp⟩
  refine ⟨by simp [opened, entries], ?_⟩
  simp only [opened, entries, List.forall_mem_cons]
  refine ⟨⟨trivial, ⟨hentry _ legible_record, by decide⟩, rfl⟩, ⟨trivial, ⟨hentry _ ?_, by decide⟩, rfl⟩, by simp⟩
  exact Datum.legible_record (by simp) (by simp)

/-- The file is read as it was written, in any order of entries. -/
theorem load_tree : load (some path) "s" tree = .ok opened := by
  obtain ⟨text, htext, hread⟩ := Json.readWithin_write_nested (legible_content tidy_opened).legible {}
  have hread := hread Json.maxLevels (legible_content tidy_opened).nested [] (by simp)
  rw [List.append_nil] at hread
  have hfile : fileText = text := by
    rw [fileText, htext]
    rfl
  have hload := @ofContent_eq_ok path "s" _ _ _ _ (Text.decode_encode text) hread rfl rfl rfl
  rw [← hfile] at hload
  exact hload

def calls : List Call :=
  [.get "b.php" "fp", .store Shelf.unit "t", .prune ["a.php", "shelf.py"]]

theorem fits_unit : Fits Shelf.unit :=
  ⟨Shelf.storable_unit, by decide⟩

/-- A cache with tidy entries is written to the file. -/
theorem exists_persist {cache : Cache} (hpath : cache.path = some path) (htidy : Tidy cache.entries)
    (hdirty : cache.dirty = true) : ∃ written kept, cache.persist tree = (written, .ok kept) := by
  obtain ⟨text, htext, -⟩ := Json.readWithin_write_nested (legible_content htidy).legible fileStyle
  have htext : cache.text = .ok text := htext
  obtain ⟨written, hwrite⟩ : ∃ written, tree.write path text = (written, .ok ()) := ⟨_, rfl⟩
  refine ⟨written, { cache with dirty := false }, ?_⟩
  rw [persist, hdirty, hpath]
  simp only [htext, hwrite]

/-- The file of a cache, a look that drops the entry that no unit can be made of, and a unit that is stored. -/
theorem runCalls_map_drawer :
    tree.isDirectory = true ∧ load (some path) "s" tree = .ok opened ∧
      (∀ unit time, .store unit time ∈ calls → Fits unit) ∧
      ∃ cache, runCalls (opened, tree) calls = some (cache, tree) ∧
        ∃ written kept again, cache.persist tree = (written, .ok kept) ∧
          load (some path) "s" written = .ok again ∧
          (again.get "shelf.py" "4f2a").map (·.1) = .ok (some Shelf.unit) ∧
          (again.get "b.php" "fp").map (·.1) = .ok none := by
  have hfits : ∀ unit time, .store unit time ∈ calls → Fits unit := by
    intro unit time hmem
    simp only [calls, List.mem_cons, reduceCtorEq, Call.store.injEq, List.not_mem_nil, or_false, false_or] at hmem
    exact hmem.1 ▸ fits_unit
  obtain ⟨cache, hrun, hpath, hdirty⟩ : ∃ cache, runCalls (opened, tree) calls = some (cache, tree) ∧
      cache.path = some path ∧ cache.dirty = true := ⟨_, rfl, rfl, rfl⟩
  have hfaithful := (faithful_load rfl load_tree).runCalls hfits hrun
  obtain ⟨written, kept, hpersist⟩ := exists_persist hpath hfaithful.tidy hdirty
  obtain ⟨again, hagain, hfinds⟩ := (runCalls_map rfl load_tree hfits hrun).2 kept written hpersist
  have hstored : standing opened "shelf.py" calls = .stored Shelf.unit := rfl
  have hdropped : standing opened "b.php" calls = .dropped := rfl
  have hshelf := hfinds "shelf.py" "4f2a"
  have hdamaged := hfinds "b.php" "fp"
  rw [hstored] at hshelf
  rw [hdropped] at hdamaged
  exact ⟨rfl, load_tree, hfits, cache, hrun, written, kept, again, hpersist, hagain, hshelf, hdamaged⟩

theorem sorted_record : record.sorted = sortedRecord := by
  simp [record, sortedRecord, Datum.record, Datum.sorted, Datum.sortedEntries, Datum.sortedItems, List.mergeSort,
    List.MergeSort.Internal.splitInTwo, Datum.entryLe, Json.keyLe]

/-- The messages of the unit that is found. -/
def messages : Except ShapeError (Option AnnotatedUnit) → List String
  | .ok (some unit) => unit.diagnostics.map (·.message)
  | _ => []

/-- What the file held for a unit that nothing is done with is not always found again: when the cache is written for
another unit, a message that is made of a mapping comes out in another order. -/
theorem reopened_differs :
    load (some path) "s" tree = .ok opened ∧ Fits Shelf.unit ∧
      standing opened "a.php" [.store Shelf.unit "t"] = .held ∧
      ∃ written kept again, (opened.store Shelf.unit "t").persist tree = (written, .ok kept) ∧
        load (some path) "s" written = .ok again ∧
        messages ((opened.get "a.php" "fp").map (·.1)) = ["\x7b'b': 1, 'a': 2\x7d"] ∧
        messages ((again.get "a.php" "fp").map (·.1)) = ["\x7b'a': 2, 'b': 1\x7d"] := by
  have htidy : Tidy (opened.store Shelf.unit "t").entries :=
    ((faithful_load rfl load_tree).store fits_unit "t").tidy
  obtain ⟨written, kept, hpersist⟩ := exists_persist rfl htidy rfl
  obtain ⟨hclean, -⟩ | ⟨text, htext, hwrite, -⟩ := persist_cases rfl hpersist
  · cases hclean
  obtain ⟨again, hagain, -, hentries⟩ := ofContent_text htidy htext path
  have hload : load (some path) "s" written = .ok again := by
    rw [load]
    simp only [FileTree.read_write rfl hwrite]
    exact hagain
  have hrecord : again.record? "a.php" "fp" = some sortedRecord := by
    rw [record?_of_sorted htidy hentries, ← sorted_record]
    rfl
  refine ⟨load_tree, fits_unit, rfl, written, kept, again, hpersist, hload, ?_, ?_⟩
  · rw [map_fst_get]
    decide +kernel
  · rw [map_fst_get, hrecord]
    decide +kernel

end Drawer

end Cache

end DocCompiler
