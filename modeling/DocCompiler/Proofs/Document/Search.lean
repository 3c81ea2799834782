import DocCompiler.Proofs.Document.Cycle
import DocCompiler.Proofs.Document.SchemaGraph
import Mathlib.Data.List.Chain
import Mathlib.Data.List.Perm.Subperm

/-!
The search for cycles of schemas. The components that it is through with stand in an order in which every
reference that is not marked leads to an earlier one; a marked one leads back to where it stands.
-/

namespace DocCompiler

namespace Components

/-- The keys of the schemas. -/
def schemaKeys (components : Components) : List ComponentKey :=
  components.schemas.map fun entry => (.schemas, entry.1)

/-- Components whose schemas stand under texts and refer to schemas that are there, none of the
references marked. -/
structure Unsearched (components : Components) : Prop where
  named : ∀ entry ∈ components.schemas, ∃ points, entry.1 = .ofCodes points
  targets : ∀ entry ∈ components.schemas, ∀ link ∈ entry.2.links, ∀ key, link.key? = some key →
    key ∈ components.schemaKeys
  unmarked : ∀ entry ∈ components.schemas, ∀ link ∈ entry.2.links, link.recursive = .bool false

variable {components : Components} {key other : ComponentKey}

theorem mem_schemaKeys :
    key ∈ components.schemaKeys ↔ key.1 = .schemas ∧ key.2 ∈ components.schemas.map (·.1) := by
  rcases key with ⟨collection, name⟩
  simp [schemaKeys, and_left_comm, eq_comm]

namespace Unsearched

variable (h : components.Unsearched)

include h

theorem named_of_mem (hkey : key ∈ components.schemaKeys) : ∃ points, key.2 = .ofCodes points := by
  obtain ⟨entry, hentry, rfl⟩ := List.mem_map.mp hkey
  exact h.named entry hentry

theorem same_iff (hkey : key ∈ components.schemaKeys) : key.same other = true ↔ key = other := by
  rw [ComponentKey.same, Bool.and_eq_true, beq_iff_eq, Datum.ofCodes_sameKey (h.named_of_mem hkey),
    Prod.ext_iff]

theorem any_same_iff (hkey : key ∈ components.schemaKeys) {keys : List ComponentKey} :
    keys.any key.same = true ↔ key ∈ keys := by
  rw [List.any_eq_true]
  constructor
  · rintro ⟨found, hfound, hsame⟩
    rwa [(h.same_iff hkey).mp hsame]
  · exact fun hmem => ⟨key, hmem, (h.same_iff hkey).mpr rfl⟩

theorem isSome_get? (hkey : key ∈ components.schemaKeys) :
    (components.get? key.1 key.2).isSome = true := by
  obtain ⟨hcollection, hname⟩ := mem_schemaKeys.mp hkey
  rw [hcollection, get?]
  exact Datum.isSome_lookup_iff.mpr
    ⟨key.2, hname, (Datum.ofCodes_sameKey (h.named_of_mem hkey)).mpr rfl⟩

theorem mem_of_get? {part : Part} {name : Datum} (hpart : components.get? .schemas name = some part) :
    (name, part) ∈ components.schemas := by
  obtain ⟨found, hsame, hmem⟩ := Datum.mem_of_lookup_eq_some hpart
  obtain rfl := (Datum.ofCodes_sameKey (h.named _ hmem)).mp hsame
  exact hmem

end Unsearched

end Components

/-- A reference at which cycles are cut: it is marked and leads back, or leads ahead. -/
structure Reference.Cut (back ahead : ComponentKey → Prop) (link : Reference) : Prop where
  marked : link.recursive = .bool true → ∃ target, link.key? = some target ∧ back target
  followed : link.recursive ≠ .bool true → ∀ target, link.key? = some target → ahead target

theorem Reference.Cut.imp {back ahead back' ahead' : ComponentKey → Prop} {link : Reference}
    (h : link.Cut back ahead) (hback : ∀ key, back key → back' key)
    (hahead : ∀ key, ahead key → ahead' key) : link.Cut back' ahead' where
  marked hmarked := (h.marked hmarked).imp fun _ => .imp_right (hback _)
  followed hfollowed target htarget := hahead target (h.followed hfollowed target htarget)

namespace CycleSearch

variable {start : Components}

/-- A search from some components that has changed nothing but marks so far. What it is inside of is a
chain of references; what it is through with stands in an order, the last one first. -/
structure Sound (start : Components) (search : CycleSearch) : Prop where
  rest : { search.components with schemas := start.schemas } = start
  unmarked : search.components.schemas.map (fun entry => (entry.1, entry.2.unmarked)) =
    start.schemas.map fun entry => (entry.1, entry.2.unmarked)
  untouched : ∀ name, (.schemas, name) ∉ search.done →
    search.components.get? .schemas name = start.get? .schemas name
  chain : search.inside.IsChain fun later earlier => start.Refers earlier later
  nodup : search.inside.Nodup
  within : ∀ key ∈ search.inside, key ∈ start.schemaKeys
  apart : ∀ key ∈ search.inside, key ∉ search.done
  closed : ∀ key earlier, key :: earlier <:+ search.done → ∀ part,
    search.components.get? key.1 key.2 = some part → ∀ link ∈ part.links,
      link.Cut (Relation.ReflTransGen start.Refers · key) (· ∈ earlier)

/-- A search that has come further in the same place. -/
structure Advances (start : Components) (before after : CycleSearch) : Prop where
  sound : after.Sound start
  inside : after.inside = before.inside
  done : before.done <:+ after.done

/-- A search that has come further and has cut the cycles at some references. -/
structure Settles (start : Components) (links : List Reference) (before after : CycleSearch) : Prop
    extends Advances start before after where
  cut : ∀ link ∈ links, link.Cut (· ∈ before.inside) (· ∈ after.done)

/-- A component that a search gets to from the last one that it is inside of. -/
def Reached (start : Components) (inside : List ComponentKey) (key : ComponentKey) : Prop :=
  key ∈ start.schemaKeys ∧ ∀ last ∈ inside.head?, start.Refers last key

variable {search before between after : CycleSearch}

theorem Sound.advances (h : search.Sound start) : Advances start search search :=
  ⟨h, rfl, List.suffix_rfl⟩

theorem Advances.trans (hfirst : Advances start before between)
    (hsecond : Advances start between after) : Advances start before after :=
  ⟨hsecond.sound, hsecond.inside.trans hfirst.inside, hfirst.done.trans hsecond.done⟩

theorem Sound.settles_nil (h : search.Sound start) : Settles start [] search search :=
  ⟨h.advances, by simp⟩

theorem Settles.append {first second : List Reference} (hfirst : Settles start first before between)
    (hsecond : Settles start second between after) : Settles start (first ++ second) before after := by
  refine ⟨hfirst.toAdvances.trans hsecond.toAdvances, fun link hlink => ?_⟩
  rcases List.mem_append.mp hlink with hlink | hlink
  · exact (hfirst.cut link hlink).imp (fun _ => id) fun _ hkey => hsecond.done.mem hkey
  · exact (hsecond.cut link hlink).imp (fun _ hkey => hfirst.inside ▸ hkey) fun _ => id

section Marking

variable {visit : ComponentKey → CycleSearch → CycleSearch} {inside : List ComponentKey}

/-- Visiting a component from some place gets through with it. -/
def Visits (start : Components) (inside : List ComponentKey)
    (visit : ComponentKey → CycleSearch → CycleSearch) : Prop :=
  ∀ key search, search.Sound start → search.inside = inside → Reached start inside key →
    key ∉ inside → Advances start search (visit key search) ∧ key ∈ (visit key search).done

/-- A reference that is not marked yet, to a component that the search gets to. -/
def Ready (start : Components) (inside : List ComponentKey) (link : Reference) : Prop :=
  link.recursive = .bool false ∧ ∀ key, link.key? = some key → Reached start inside key

variable (hstart : start.Unsearched) (hvisit : Visits start inside visit)

include hstart hvisit

theorem settles_follow {link : Reference} (hlink : Ready start inside link) (search : CycleSearch)
    (h : search.Sound start) (hinside : search.inside = inside) :
    Settles start [(follow visit link search).1] search (follow visit link search).2 ∧
      (Part.reference (follow visit link search).1).unmarked = (Part.reference link).unmarked := by
  have hunmarked : link.recursive ≠ .bool true := by simp [hlink.1]
  unfold follow
  split
  · rename_i hkey
    refine ⟨⟨h.advances, fun found hfound => ?_⟩, rfl⟩
    obtain rfl := List.mem_singleton.mp hfound
    exact ⟨fun hmarked => absurd hmarked hunmarked, fun _ target htarget => by simp [hkey] at htarget⟩
  · rename_i key hkey
    have hreached := hlink.2 key hkey
    split
    · rename_i hback
      refine ⟨⟨h.advances, fun found hfound => ?_⟩, rfl⟩
      obtain rfl := List.mem_singleton.mp hfound
      exact ⟨fun _ => ⟨key, hkey, (hstart.any_same_iff hreached.1).mp hback⟩,
        fun hother => absurd rfl hother⟩
    · rename_i hahead
      have hnotin : key ∉ inside := by
        rw [← hinside, ← hstart.any_same_iff hreached.1]
        exact hahead
      obtain ⟨hadvances, hdone⟩ := hvisit key search h hinside hreached hnotin
      refine ⟨⟨hadvances, fun found hfound => ?_⟩, rfl⟩
      obtain rfl := List.mem_singleton.mp hfound
      refine ⟨fun hmarked => absurd hmarked hunmarked, fun _ target htarget => ?_⟩
      obtain rfl := Option.some.inj (hkey.symm.trans htarget)
      exact hdone

omit hvisit hstart in
theorem settles_properties {properties : Registry}
    (hproperties : ∀ entry ∈ properties, ∀ search : CycleSearch, search.Sound start →
      search.inside = inside →
      Settles start (mark visit entry.2 search).1.links search (mark visit entry.2 search).2 ∧
        (mark visit entry.2 search).1.unmarked = entry.2.unmarked)
    (search : CycleSearch) (h : search.Sound start) (hinside : search.inside = inside) :
    Settles start (Part.propertyLinks (markProperties visit properties search).1) search
        (markProperties visit properties search).2 ∧
      (markProperties visit properties search).1.map (fun entry => (entry.1, entry.2.unmarked)) =
        properties.map fun entry => (entry.1, entry.2.unmarked) := by
  induction properties generalizing search with
  | nil => exact ⟨h.settles_nil, rfl⟩
  | cons entry rest ih =>
      rcases entry with ⟨name, part⟩
      obtain ⟨hfirst, hrest⟩ := List.forall_mem_cons.mp hproperties
      obtain ⟨hsettles, hsame⟩ := hfirst search h hinside
      obtain ⟨hlater, hothers⟩ := ih hrest _ hsettles.sound (hsettles.inside.trans hinside)
      refine ⟨?_, ?_⟩
      · rw [markProperties, Part.propertyLinks]
        exact hsettles.append hlater
      · rw [markProperties, List.map_cons, List.map_cons, hothers, hsame]

/-- Marking a part cuts the cycles at the references in it and changes nothing else about it. -/
theorem settles_mark {part : Part} (hlinks : ∀ link ∈ part.links, Ready start inside link)
    (search : CycleSearch) (h : search.Sound start) (hinside : search.inside = inside) :
    Settles start (mark visit part search).1.links search (mark visit part search).2 ∧
      (mark visit part search).1.unmarked = part.unmarked := by
  induction part using Part.schema_induction generalizing search with
  | reference link =>
      rw [mark, Part.links_reference]
      exact settles_follow hstart hvisit (hlinks link (by simp)) search h hinside
  | schema facets properties items hproperties hitems =>
      obtain ⟨hfirst, hnames⟩ := settles_properties
        (fun entry hentry => hproperties entry hentry fun link hlink =>
          hlinks link (Part.mem_links_schema.mpr (.inl ⟨entry, hentry, hlink⟩))) search h hinside
      have hbetween := hfirst.inside.trans hinside
      cases items with
      | none =>
          refine ⟨?_, ?_⟩
          · simpa [mark, markItems, Part.links, Part.itemLinks] using hfirst
          · rw [mark, Part.unmarked_schema, Part.unmarked_schema, hnames]
            rfl
      | some inner =>
          obtain ⟨hsecond, hsame⟩ := hitems inner rfl (fun link hlink =>
            hlinks link (Part.mem_links_schema.mpr (.inr ⟨inner, rfl, hlink⟩))) _ hfirst.sound hbetween
          refine ⟨?_, ?_⟩
          · simpa only [mark, markItems, Part.links, Part.itemLinks] using hfirst.append hsecond
          · rw [mark, Part.unmarked_schema, Part.unmarked_schema, hnames]
            simp only [markItems, Option.map_some, hsame]
  | other part hreference hschema =>
      have hmark : mark visit part search = (part, search) := by
        cases part with
        | reference link => exact absurd rfl (hreference link)
        | schema facets properties items => exact absurd rfl (hschema facets properties items)
        | _ => rfl
      rw [hmark, Part.links_of_other hreference hschema]
      exact ⟨h.settles_nil, rfl⟩

end Marking

/-- A component leads to the last one that a search is inside of from each of them. -/
theorem Sound.reaches_head (h : search.Sound start) {last : ComponentKey} {inside : List ComponentKey}
    (hinside : search.inside = last :: inside) :
    ∀ key ∈ search.inside, Relation.ReflTransGen start.Refers key last := by
  have hchain := h.chain
  rw [hinside] at hchain ⊢
  clear hinside
  induction inside generalizing last with
  | nil =>
      intro key hkey
      obtain rfl := List.mem_singleton.mp hkey
      exact .refl
  | cons first inside ih =>
      obtain ⟨hrefers, hrest⟩ := List.isChain_cons_cons.mp hchain
      intro key hkey
      rcases List.mem_cons.mp hkey with rfl | hkey
      · exact .refl
      · exact (ih hrest key hkey).tail hrefers

/-- A search may go inside a component that it gets to. -/
theorem Sound.enter (h : search.Sound start) {key : ComponentKey}
    (hreached : Reached start search.inside key) (hinside : key ∉ search.inside)
    (hdone : key ∉ search.done) : Sound start { search with inside := key :: search.inside } where
  rest := h.rest
  unmarked := h.unmarked
  untouched := h.untouched
  chain := by
    cases hcase : search.inside with
    | nil => exact List.isChain_singleton _
    | cons last inside =>
        refine List.isChain_cons_cons.mpr ⟨hreached.2 last (by simp [hcase]), ?_⟩
        rw [← hcase]
        exact h.chain
  nodup := List.nodup_cons.mpr ⟨hinside, h.nodup⟩
  within := List.forall_mem_cons.mpr ⟨hreached.1, h.within⟩
  apart := List.forall_mem_cons.mpr ⟨hdone, h.apart⟩
  closed := h.closed

/-- What stands under a key after a search is what stood there, up to marks. -/
theorem Sound.get?_unmarked (h : search.Sound start) (name : Datum) :
    (search.components.get? .schemas name).map Part.unmarked =
      (start.get? .schemas name).map Part.unmarked := by
  change (Datum.lookup name search.components.schemas).map Part.unmarked =
    (Datum.lookup name start.schemas).map Part.unmarked
  rw [← Datum.lookup_map, h.unmarked, Datum.lookup_map]

theorem Sound.names (h : search.Sound start) :
    search.components.schemas.map (·.1) = start.schemas.map (·.1) := by
  simpa only [List.map_map, Function.comp_def] using congrArg (List.map (·.1)) h.unmarked

/-- Marks that are put into one schema change no other one. -/
theorem Sound.get?_put_of_ne (hstart : start.Unsearched) (h : search.Sound start) {name other : Datum}
    (hkey : (Collection.schemas, name) ∈ start.schemaKeys) (part : Part) (hne : other ≠ name) :
    (search.components.put .schemas name part).get? .schemas other =
      search.components.get? .schemas other := by
  have hstrings {key : Datum} (hkey : key ∈ search.components.schemas.map (·.1)) :
      ∃ points, key = .ofCodes points := by
    rw [h.names] at hkey
    obtain ⟨entry, hentry, rfl⟩ := List.mem_map.mp hkey
    exact hstart.named entry hentry
  have hdiffers : name.sameKey other = false := by
    rw [← Bool.not_eq_true, Datum.ofCodes_sameKey (hstart.named_of_mem hkey)]
    exact Ne.symm hne
  refine Datum.lookup_insertEntry_of_ne hdiffers fun entry hentry hentryname => ?_
  rwa [(Datum.ofCodes_sameKey (hstrings (List.mem_map_of_mem hentry))).mp hentryname]

/-- A search leaves a component with the cycles cut at its references. -/
theorem Sound.leave (hstart : start.Unsearched) (h : search.Sound start) {name : Datum}
    {inside : List ComponentKey} (hinside : search.inside = (.schemas, name) :: inside) {part : Part}
    (hpart : (search.components.get? .schemas name).map Part.unmarked = some part.unmarked)
    (hcut : ∀ link ∈ part.links, link.Cut (· ∈ search.inside) (· ∈ search.done)) :
    Sound start
      { components := search.components.put .schemas name part
        inside := inside
        done := (.schemas, name) :: search.done } := by
  have hmem : (Collection.schemas, name) ∈ search.inside := by simp [hinside]
  have hkey := h.within _ hmem
  have hdone := h.apart _ hmem
  have hname : name.sameKey name = true := (Datum.ofCodes_sameKey (hstart.named_of_mem hkey)).mpr rfl
  obtain ⟨old, hold, hsame⟩ := Option.map_eq_some_iff.mp hpart
  exact
    { rest := h.rest
      unmarked := (Datum.map_insertEntry_of_lookup hold hsame.symm).trans h.unmarked
      untouched := fun other hother' => by
        obtain ⟨hne, hnotdone⟩ := not_or.mp (List.mem_cons.not.mp hother')
        have hne : other ≠ name := fun heq => hne (by rw [heq])
        exact (h.get?_put_of_ne hstart hkey part hne).trans (h.untouched other hnotdone)
      chain := (hinside ▸ h.chain).tail
      nodup := (List.nodup_cons.mp (hinside ▸ h.nodup)).2
      within := fun key hkey => h.within key (by simp [hinside, hkey])
      apart := fun key hkey => by
        rw [List.mem_cons, not_or]
        refine ⟨?_, h.apart key (by simp [hinside, hkey])⟩
        rintro rfl
        exact (List.nodup_cons.mp (hinside ▸ h.nodup)).1 hkey
      closed := fun key earlier hsuffix => by
        rcases List.suffix_cons_iff.mp hsuffix with heq | hsuffix
        · obtain ⟨rfl, rfl⟩ := List.cons.inj heq
          intro found hfound link hlink
          obtain rfl : part = found :=
            Option.some.inj ((Datum.lookup_insertEntry_self hname).symm.trans hfound)
          exact (hcut link hlink).imp (h.reaches_head hinside) fun _ => id
        · refine fun found hfound => h.closed key earlier hsuffix found ?_
          have hne : key ≠ (.schemas, name) := by
            rintro rfl
            exact hdone (hsuffix.mem (List.mem_cons_self ..))
          rcases key with ⟨collection, other⟩
          cases collection with
          | schemas =>
              have hother : other ≠ name := fun heq => hne (Prod.ext rfl heq)
              exact (h.get?_put_of_ne hstart hkey part hother).symm.trans hfound
          | _ => exact hfound }

/-- With enough fuel, a search gets through with every component that it gets to. -/
theorem advances_visit (hstart : start.Unsearched) (fuel : Nat) {key : ComponentKey}
    (h : search.Sound start) (hreached : Reached start search.inside key)
    (hfuel : start.schemaKeys.length < fuel + search.inside.length) :
    Advances start search (visit fuel key search) ∧
      (key ∉ search.inside → key ∈ (visit fuel key search).done) := by
  induction fuel generalizing key search with
  | zero =>
      -- The keys that a search is inside of are distinct schemas: the fuel outlasts them.
      have hle := (h.nodup.subperm h.within).length_le
      omega
  | succ fuel ih =>
      rw [visit]
      by_cases hskip : (search.isInside key || search.isDone key) = true
      · rw [if_pos hskip]
        refine ⟨h.advances, fun hinside => ?_⟩
        rw [Bool.or_eq_true, isInside, isDone, hstart.any_same_iff hreached.1,
          hstart.any_same_iff hreached.1] at hskip
        exact hskip.resolve_left hinside
      · rw [if_neg hskip]
        rw [Bool.or_eq_true, isInside, isDone, hstart.any_same_iff hreached.1,
          hstart.any_same_iff hreached.1, not_or] at hskip
        obtain ⟨hinside, hdone⟩ := hskip
        obtain ⟨collection, name⟩ := key
        obtain rfl : collection = .schemas := (Components.mem_schemaKeys.mp hreached.1).1
        obtain ⟨part, hpart⟩ := Option.isSome_iff_exists.mp (hstart.isSome_get? hreached.1)
        have hmem := hstart.mem_of_get? hpart
        have hfound := (h.untouched name hdone).trans hpart
        have henter := h.enter hreached hinside hdone
        have hready : ∀ link ∈ part.links, Ready start ((.schemas, name) :: search.inside) link := by
          refine fun link hlink => ⟨hstart.unmarked _ hmem link hlink, fun target htarget => ?_⟩
          refine ⟨hstart.targets _ hmem link hlink target htarget, fun last hlast => ?_⟩
          obtain rfl := Option.some.inj hlast
          exact ⟨part, hpart, link, hlink, htarget⟩
        have hvisit : Visits start ((.schemas, name) :: search.inside) (visit fuel) := by
          intro target later hlater hplace htarget hnotin
          have hadvances := ih hlater (hplace ▸ htarget) (by rw [hplace, List.length_cons]; omega)
          exact ⟨hadvances.1, hadvances.2 (hplace ▸ hnotin)⟩
        obtain ⟨hsettles, hsame⟩ := settles_mark hstart hvisit hready _ henter rfl
        have hlater := hsettles.sound.leave hstart hsettles.inside
          (by rw [hsettles.sound.get?_unmarked, hpart, hsame]; rfl)
          (fun link hlink => (hsettles.cut link hlink).imp
            (fun _ htarget => hsettles.inside ▸ htarget) fun _ => id)
        simp only [hfound]
        exact ⟨⟨hlater, rfl, hsettles.done.trans (List.suffix_cons ..)⟩, fun _ => List.mem_cons_self ..⟩

theorem sound_start (start : Components) : Sound start { components := start } where
  rest := rfl
  unmarked := rfl
  untouched _ _ := rfl
  chain := List.isChain_nil
  nodup := List.nodup_nil
  within := by simp
  apart := by simp
  closed key earlier hsuffix := by simpa using List.suffix_nil.mp hsuffix

/-- Searching from every schema gets through with all of them. -/
theorem advances_foldl (hstart : start.Unsearched) {fuel : Nat}
    (hfuel : start.schemaKeys.length < fuel) (names : Registry) (hnames : names ⊆ start.schemas)
    (search : CycleSearch) (h : search.Sound start) (hinside : search.inside = []) :
    Advances start search (names.foldl (fun search entry => visit fuel (.schemas, entry.1) search) search) ∧
      ∀ entry ∈ names, (.schemas, entry.1) ∈
        (names.foldl (fun search entry => visit fuel (.schemas, entry.1) search) search).done := by
  induction names generalizing search with
  | nil => exact ⟨h.advances, by simp⟩
  | cons entry rest ih =>
      obtain ⟨hentry, hrest⟩ := List.cons_subset.mp hnames
      have hkey : (Collection.schemas, entry.1) ∈ start.schemaKeys :=
        List.mem_map_of_mem (f := fun entry => (Collection.schemas, entry.1)) hentry
      have hreached : Reached start search.inside (.schemas, entry.1) := ⟨hkey, by simp [hinside]⟩
      obtain ⟨hfirst, hdone⟩ := advances_visit hstart fuel h hreached (by omega)
      obtain ⟨hlater, hothers⟩ := ih hrest _ hfirst.sound (hfirst.inside.trans hinside)
      refine ⟨hfirst.trans hlater, List.forall_mem_cons.mpr ⟨?_, hothers⟩⟩
      exact hlater.done.mem (hdone (by simp [hinside]))

end CycleSearch

/-- Marking leaves a search behind that is through with every schema. -/
theorem Components.Unsearched.markCycles {components : Components} (h : components.Unsearched) :
    ∃ search : CycleSearch, search.Sound components ∧ search.components = components.markCycles ∧
      ∀ key ∈ components.schemaKeys, key ∈ search.done := by
  have hfuel : components.schemaKeys.length < components.size + 1 := by
    rw [Components.schemaKeys, List.length_map, Components.size]
    omega
  obtain ⟨hadvances, hdone⟩ := CycleSearch.advances_foldl h hfuel components.schemas (fun _ => id) _
    (CycleSearch.sound_start components) rfl
  exact ⟨_, hadvances.sound, rfl, List.forall_mem_map.mpr hdone⟩

end DocCompiler
