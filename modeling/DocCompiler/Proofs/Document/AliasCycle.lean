import DocCompiler.Proofs.Document.Alias
import Mathlib.Data.List.Cycle

/-!
Cycles of aliases. An alias leads to one other component at most, so a cycle is known by any name on it,
and whoever follows aliases from a name on a cycle stays on it. The search therefore finds each cycle
from every name on it and from every alias that leads into it, and names it once: a cycle that shares
a name with one that was found before is that one.
-/

namespace DocCompiler

section Cycles

variable {α : Type} {r : α → α → Prop} {cycle other : Cycle α} {x y : α}

/-- A cycle of a relation goes through something, and through nothing twice. -/
structure IsCycleOf (r : α → α → Prop) (cycle : Cycle α) : Prop where
  ne_nil : cycle ≠ Cycle.nil
  nodup : cycle.Nodup
  chain : cycle.Chain r

/-- Lists that go through the cycles of a relation, each of which is gone through once. -/
structure ListsCycles (r : α → α → Prop) (lists : List (List α)) : Prop where
  nodup : (lists.map ((↑) : List α → Cycle α)).Nodup
  mem_iff : ∀ cycle, cycle ∈ lists.map ((↑) : List α → Cycle α) ↔ IsCycleOf r cycle

theorem isCycleOf_cons_iff {rest : List α} :
    IsCycleOf r (x :: rest : List α) ↔ (x :: rest).Nodup ∧ (x :: (rest ++ [x])).IsChain r := by
  constructor
  · rintro ⟨-, hnodup, hchain⟩
    exact ⟨Cycle.nodup_coe_iff.mp hnodup, (Cycle.chain_coe_cons r x rest).mp hchain⟩
  · rintro ⟨hnodup, hchain⟩
    refine ⟨?_, Cycle.nodup_coe_iff.mpr hnodup, (Cycle.chain_coe_cons r x rest).mpr hchain⟩
    rw [Ne, Cycle.coe_eq_nil]
    exact List.cons_ne_nil x rest

/-- A cycle may be gone through from any member. -/
theorem exists_cons_of_mem (h : x ∈ cycle) : ∃ rest : List α, cycle = (x :: rest : List α) := by
  induction cycle using Quotient.inductionOn' with
  | h items =>
      rw [Cycle.mk''_eq_coe, Cycle.mem_coe_iff] at h
      obtain ⟨front, back, rfl⟩ := List.append_of_mem h
      exact ⟨back ++ front, Cycle.coe_eq_coe.mpr List.isRotated_append⟩

namespace IsCycleOf

/-- Every member of a cycle is followed by one. -/
theorem exists_rel (h : IsCycleOf r cycle) (hx : x ∈ cycle) : ∃ y ∈ cycle, r x y := by
  obtain ⟨rest, rfl⟩ := exists_cons_of_mem hx
  obtain ⟨-, hchain⟩ := isCycleOf_cons_iff.mp h
  cases rest with
  | nil => exact ⟨x, by simp, by simpa using hchain⟩
  | cons z rest => exact ⟨z, by simp, (List.isChain_cons_cons.mp hchain).1⟩

section Functional

variable (hr : Relator.RightUnique r)

include hr

/-- What follows a member of a cycle is on it. -/
theorem mem_of_rel (h : IsCycleOf r cycle) (hx : x ∈ cycle) (hxy : r x y) : y ∈ cycle := by
  obtain ⟨z, hz, hxz⟩ := h.exists_rel hx
  exact hr hxz hxy ▸ hz

/-- What is reached from a member of a cycle is on it. -/
theorem mem_of_isChain (h : IsCycleOf r cycle) {path : List α} (hx : x ∈ cycle)
    (hpath : (x :: path).IsChain r) : ∀ y ∈ path, y ∈ cycle := by
  induction path generalizing x with
  | nil => nofun
  | cons z path ih =>
      obtain ⟨hxz, hrest⟩ := List.isChain_cons_cons.mp hpath
      have hz := h.mem_of_rel hr hx hxz
      rw [List.forall_mem_cons]
      exact ⟨hz, ih hz hrest⟩

omit r hr in
/-- Two ways from one member to another, which neither meets before its end, are the same. -/
private theorem eq_of_isChain {r : α → α → Prop} (hr : Relator.RightUnique r) {first second : List α}
    (hfirst : (x :: (first ++ [y])).IsChain r) (hsecond : (x :: (second ++ [y])).IsChain r)
    (hnotFirst : y ∉ first) (hnotSecond : y ∉ second) : first = second := by
  induction first generalizing x second with
  | nil =>
      cases second with
      | nil => rfl
      | cons z second =>
          have hz := hr (List.isChain_cons_cons.mp hfirst).1 (List.isChain_cons_cons.mp hsecond).1
          exact absurd (hz ▸ List.mem_cons_self) hnotSecond
  | cons z first ih =>
      cases second with
      | nil =>
          have hz := hr (List.isChain_cons_cons.mp hsecond).1 (List.isChain_cons_cons.mp hfirst).1
          exact absurd (hz ▸ List.mem_cons_self) hnotFirst
      | cons w second =>
          obtain ⟨hxz, hfirst⟩ := List.isChain_cons_cons.mp hfirst
          obtain ⟨hxw, hsecond⟩ := List.isChain_cons_cons.mp hsecond
          obtain rfl := hr hxz hxw
          rw [ih hfirst hsecond (List.not_mem_of_not_mem_cons hnotFirst)
            (List.not_mem_of_not_mem_cons hnotSecond)]

/-- Cycles that meet are the same. -/
theorem eq_of_mem (h : IsCycleOf r cycle) (hother : IsCycleOf r other) (hx : x ∈ cycle)
    (hxother : x ∈ other) : cycle = other := by
  obtain ⟨first, rfl⟩ := exists_cons_of_mem hx
  obtain ⟨second, rfl⟩ := exists_cons_of_mem hxother
  obtain ⟨hfirst, hfirstChain⟩ := isCycleOf_cons_iff.mp h
  obtain ⟨hsecond, hsecondChain⟩ := isCycleOf_cons_iff.mp hother
  rw [eq_of_isChain hr hfirstChain hsecondChain (List.nodup_cons.mp hfirst).1
    (List.nodup_cons.mp hsecond).1]

end Functional

end IsCycleOf

end Cycles

namespace Components

variable {components : Components} {place : Collection}

/-- A component of a collection is an alias that is bound to another one of it. -/
def Follows (components : Components) (place : Collection) (name following : String) : Prop :=
  ∃ link, components.get? place (.text name) = some (.reference link) ∧
    link.Bound components place ∧ link.name = .text following

theorem follows_rightUnique : Relator.RightUnique (components.Follows place) := by
  rintro name first second ⟨link, hlink, -, hfirst⟩ ⟨link', hlink', -, hsecond⟩
  obtain rfl := Part.reference.inj (Option.some.inj (hlink.symm.trans hlink'))
  exact Datum.text.inj (hfirst.symm.trans hsecond)

/-- The diagnostic for a cycle of aliases, gone through from its first name. -/
def cycleDiagnostic (components : Components) (place : Collection) (names : List String) : Diagnostic :=
  (ResolutionError.aliasCycle place names (names.headD "")).diagnostic
    ((components.get? place (.text (names.headD ""))).bind Part.place)

/-- Names of components, each but the last an alias for the next, and a component: that with the last
name, if there is any. -/
structure Walked (components : Components) (place : Collection) (names : List String) (last : Part) :
    Prop where
  chain : names.IsChain (components.Follows place)
  nodup : names.Nodup
  found : ∀ name ∈ names, (components.get? place (.text name)).isSome = true
  ending : ∀ name ∈ names.getLast?, components.get? place (.text name) = some last
  component : last ∈ (components.entries place).map (·.2)

namespace Walked

variable {names : List String} {last : Part}

theorem length_le (h : components.Walked place names last) :
    names.length ≤ (components.entries place).length := by
  have hnodup : (names.map Datum.text).Nodup := h.nodup.map fun _ _ => Datum.text.inj
  have hkeys : names.map Datum.text ⊆ (components.entries place).map (·.1) := by
    rintro _ hmem
    obtain ⟨name, hname, rfl⟩ := List.mem_map.mp hmem
    obtain ⟨part, hpart⟩ := Option.isSome_iff_exists.mp (h.found name hname)
    obtain ⟨key, hkey, hmem⟩ := Datum.mem_of_lookup_eq_some hpart
    rw [Datum.sameKey_text] at hkey
    exact hkey ▸ List.mem_map_of_mem hmem
  simpa using (hnodup.subperm hkeys).length_le

/-- One step further along a bound alias. -/
theorem follow {link : Reference} (h : components.Walked place names (.reference link))
    (hbound : link.Bound components place) {following : String} (hname : link.name = .text following)
    (hnew : following ∉ names) {next : Part}
    (hnext : components.get? place (.text following) = some next) :
    components.Walked place (names ++ [following]) next where
  chain := by
    rw [List.isChain_append]
    refine ⟨h.chain, List.isChain_singleton _, fun name hlast _ hhead => ?_⟩
    obtain rfl := Option.some.inj hhead
    exact ⟨link, h.ending name hlast, hbound, hname⟩
  nodup := by
    rw [List.nodup_append_comm, List.singleton_append, List.nodup_cons]
    exact ⟨hnew, h.nodup⟩
  found := by
    intro name hmem
    rcases List.mem_append.mp hmem with hmem | hmem
    · exact h.found name hmem
    · rw [List.mem_singleton.mp hmem, hnext]
      rfl
  ending := by
    intro name hlast
    rw [List.getLast?_concat] at hlast
    rw [← Option.some.inj hlast, hnext]
  component := by
    obtain ⟨key, -, hmem⟩ := Datum.mem_of_lookup_eq_some hnext
    exact List.mem_map_of_mem hmem

end Walked

section Search

/-- The references in the place of components are bound there, if at all. -/
def Bindings (components : Components) (place : Collection) : Prop :=
  ∀ entry ∈ components.entries place, ∀ link, entry.2 = .reference link →
    link.binding = .unbound ∨ link.Bound components place

/-- What a search that has gone along a chain of names may give: no cycle, if the last name is on none;
else the cycle that the chain leads into, from the name that it reaches first. -/
inductive Found (components : Components) (place : Collection) (names : List String) :
    Option (List Datum × String) → Prop
  | none (h : ∀ name ∈ names.getLast?, ∀ cycle, IsCycleOf (components.Follows place) cycle →
      name ∉ cycle) : Found components place names none
  | cycle {first : String} {rest path : List String}
      (h : IsCycleOf (components.Follows place) (first :: rest : List String))
      (hpath : (names ++ path).IsChain (components.Follows place)) (hfirst : first ∈ names ++ path) :
      Found components place names (some ((first :: rest).map Datum.text, first))

variable (hbindings : components.Bindings place) {front : List Datum} {names : List String} {last : Part}

/-- A name that follows the last one of a chain and is on it closes a cycle. -/
theorem Walked.found_of_mem {link : Reference} (h : components.Walked place names (.reference link))
    (hbound : link.Bound components place) {following : String} (hname : link.name = .text following)
    (hseen : following ∈ names) :
    Found components place names
      (some ((names.dropWhile (· != following)).map Datum.text, following)) := by
  obtain ⟨before, after, hnames, hbefore⟩ := List.eq_append_cons_of_mem hseen
  have hdrop : names.dropWhile (· != following) = following :: after := by
    rw [hnames, List.dropWhile_append_of_pos, List.dropWhile_cons_of_neg]
    · simp
    · intro name hmem
      rw [bne_iff_ne]
      rintro rfl
      exact hbefore hmem
  rw [hdrop]
  refine @Found.cycle _ _ _ _ _ [] (isCycleOf_cons_iff.mpr ⟨?_, ?_⟩) ?_ ?_
  · exact (List.nodup_append'.mp (hnames ▸ h.nodup)).2.1
  · rw [← List.cons_append, List.isChain_append]
    refine ⟨(List.isChain_append.mp (hnames ▸ h.chain)).2.1, List.isChain_singleton _, ?_⟩
    intro name hlast _ hhead
    obtain rfl := Option.some.inj hhead
    refine ⟨link, h.ending name ?_, hbound, hname⟩
    rw [hnames, List.getLast?_append, hlast]
    rfl
  · rw [List.append_nil]
    exact h.chain
  · rw [List.append_nil]
    exact hseen

/-- What is found one step further is found as well before that step. -/
theorem Found.of_follow {following : String} {found : Option (List Datum × String)}
    (hfound : Found components place (names ++ [following]) found)
    (hstep : ∀ name ∈ names.getLast?, components.Follows place name following) :
    Found components place names found := by
  cases hfound with
  | none h =>
      refine .none fun name hname cycle hcycle hmem => ?_
      refine h following ?_ cycle hcycle (hcycle.mem_of_rel follows_rightUnique hmem (hstep name hname))
      rw [List.getLast?_concat]
      rfl
  | @cycle first rest path h hpath hfirst =>
      rw [List.append_assoc] at hpath hfirst
      exact .cycle h hpath hfirst

include hbindings

/-- What a component leads to is what its alias is bound to. -/
theorem Walked.following?_cases (h : components.Walked place names last) :
    (last.following? = none ∧ ∀ name ∈ names.getLast?, ∀ following,
        ¬ components.Follows place name following) ∨
      ∃ link following next, last = .reference link ∧ last.following? = some following ∧
        link.Bound components place ∧ link.name = .text following ∧
        components.next? last = some next ∧ components.get? place (.text following) = some next := by
  obtain ⟨⟨key, part⟩, hentry, rfl⟩ := List.mem_map.mp h.component
  have hnone (hunbound : ∀ link, part = .reference link → ¬ link.Bound components place) :
      ∀ name ∈ names.getLast?, ∀ following, ¬ components.Follows place name following := by
    rintro name hname following ⟨link, hlink, hbound, -⟩
    exact hunbound link (Option.some.inj ((h.ending name hname).symm.trans hlink)) hbound
  cases part with
  | reference link =>
      rcases hbindings _ hentry link rfl with hunbound | hbound
      · refine .inl ⟨by simp [Part.following?, Reference.isBound, hunbound], hnone ?_⟩
        rintro _ heq hbound
        obtain rfl := Part.reference.inj heq
        cases hunbound.symm.trans hbound.binding
      · obtain ⟨following, hname, -⟩ := hbound.name
        obtain ⟨next, hnext⟩ := Option.isSome_iff_exists.mp hbound.found
        refine .inr ⟨link, following, next, rfl, ?_, hbound, hname, ?_, hname ▸ hnext⟩
        · simp [Part.following?, Reference.isBound, hbound.binding, hname, Datum.display]
        · rw [next?, target?, hbound.binding, hbound.collection, Collection.ofDatum?_name]
          exact hnext
  | _ => exact .inl ⟨rfl, hnone (by rintro _ ⟨⟩)⟩

/-- The search for a cycle, along names behind others that are no texts, with more fuel than there are
names ahead. -/
theorem found_aliasCycle? (hfront : ∀ name ∈ front, ∀ text, name ≠ .text text) (fuel : Nat)
    (h : components.Walked place names last)
    (hfuel : (components.entries place).length < fuel + names.length) :
    Found components place names
      (components.aliasCycle? fuel (front ++ names.map Datum.text) last) := by
  induction fuel generalizing names last with
  | zero =>
      have hlength := h.length_le
      omega
  | succ fuel ih =>
      rcases h.following?_cases hbindings with
        ⟨hfollowing, hends⟩ | ⟨link, following, next, rfl, hfollowing, hbound, hname, hnext, hget⟩
      · simp only [aliasCycle?, hfollowing]
        refine .none fun name hlast cycle hcycle hmem => ?_
        obtain ⟨other, -, hfollows⟩ := hcycle.exists_rel hmem
        exact hends name hlast other hfollows
      · have hany : (front ++ names.map Datum.text).any (·.isText following) = true ↔
            following ∈ names := by
          simp only [List.any_append, Bool.or_eq_true, List.any_eq_true, Datum.isText_iff, List.mem_map]
          constructor
          · rintro (⟨name, hmem, hseen⟩ | ⟨_, ⟨name, hmem, rfl⟩, hseen⟩)
            · exact absurd hseen (hfront name hmem following)
            · exact Datum.text.inj hseen ▸ hmem
          · exact fun hmem => .inr ⟨_, ⟨following, hmem, rfl⟩, rfl⟩
        simp only [aliasCycle?, hfollowing]
        by_cases hseen : following ∈ names
        · have hdrop : (front ++ names.map Datum.text).dropWhile (!·.isText following) =
              (names.dropWhile (· != following)).map Datum.text := by
            rw [List.dropWhile_append_of_pos, List.dropWhile_map]
            · rfl
            · intro name hmem
              rw [Bool.not_eq_true', Datum.isText_eq_false_iff]
              exact hfront name hmem following
          rw [if_pos (hany.mpr hseen), hdrop]
          exact h.found_of_mem hbound hname hseen
        · rw [if_neg (hany.not.mpr hseen)]
          simp only [hnext]
          have hnames : front ++ names.map Datum.text ++ [.text following] =
              front ++ (names ++ [following]).map Datum.text := by
            rw [List.map_append, List.append_assoc]
            rfl
          rw [hnames]
          refine Found.of_follow (ih (h.follow hbound hname hseen hget) ?_) fun name hlast => ?_
          · rw [List.length_append, List.length_singleton]
            omega
          · exact ⟨link, h.ending name hlast, hbound, hname⟩

/-- The cycles that are named for some components, after those that have been reported: cycles of
aliases, none of them reported, all different, and with them any that goes through the components. -/
structure Names (components : Components) (place : Collection) (reported : List String)
    (entries : Registry) (cycles : List (List String)) : Prop where
  isCycle : ∀ names ∈ cycles, IsCycleOf (components.Follows place) (names : Cycle String)
  unreported : ∀ names ∈ cycles, ∀ name ∈ names, name ∉ reported
  nodup : (cycles.map ((↑) : List String → Cycle String)).Nodup
  complete : ∀ cycle, IsCycleOf (components.Follows place) cycle → ∀ name ∈ cycle,
    .text name ∈ entries.map (·.1) →
      (∀ other ∈ cycle, other ∈ reported) ∨ cycle ∈ cycles.map ((↑) : List String → Cycle String)

/-- Names that have been reported are on cycles that have been reported as a whole. -/
def Reported (components : Components) (place : Collection) (reported : List String) : Prop :=
  ∀ name ∈ reported, ∃ cycle, IsCycleOf (components.Follows place) cycle ∧ name ∈ cycle ∧
    ∀ other ∈ cycle, other ∈ reported

omit hbindings

theorem Reported.append {cycle reported : List String} (h : components.Reported place reported)
    (hcycle : IsCycleOf (components.Follows place) (cycle : Cycle String)) :
    components.Reported place (cycle ++ reported) := by
  intro name hname
  rcases List.mem_append.mp hname with hname | hname
  · exact ⟨cycle, hcycle, hname, fun other hother => List.mem_append_left _ hother⟩
  · obtain ⟨found, hfound, hmem, hall⟩ := h name hname
    exact ⟨found, hfound, hmem, fun other hother => List.mem_append_right _ (hall other hother)⟩

section Steps

variable {reported : List String} {key : Datum} {part : Part} {rest : Registry}
  {cycles : List (List String)}

/-- A component that leads into no cycle adds none. -/
theorem Names.skip (h : components.Names place reported rest cycles)
    (hnone : ∀ name, key = .text name → ∀ cycle, IsCycleOf (components.Follows place) cycle →
      name ∉ cycle) : components.Names place reported ((key, part) :: rest) cycles where
  isCycle := h.isCycle
  unreported := h.unreported
  nodup := h.nodup
  complete := by
    intro cycle hcycle name hname hkey
    rcases List.mem_cons.mp hkey with hkey | hkey
    · exact absurd hname (hnone name hkey.symm cycle hcycle)
    · exact h.complete cycle hcycle name hname hkey

/-- Nor does a component that leads into a cycle of which a name has been reported. -/
theorem Names.again {found : List String} (h : components.Names place (found ++ reported) rest cycles)
    (hreported : components.Reported place reported)
    (hfound : IsCycleOf (components.Follows place) (found : Cycle String))
    (hseen : ∃ name ∈ found, name ∈ reported)
    (hleads : ∀ name, key = .text name → ∀ cycle, IsCycleOf (components.Follows place) cycle →
      name ∈ cycle → cycle = found) :
    components.Names place reported ((key, part) :: rest) cycles where
  isCycle := h.isCycle
  unreported names hnames name hname hmem :=
    h.unreported names hnames name hname (List.mem_append_right _ hmem)
  nodup := h.nodup
  complete := by
    have hall : ∀ other ∈ found, other ∈ reported := by
      obtain ⟨name, hname, hmem⟩ := hseen
      obtain ⟨cycle, hcycle, hon, hall⟩ := hreported name hmem
      obtain rfl := hcycle.eq_of_mem follows_rightUnique hfound hon hname
      exact hall
    intro cycle hcycle name hname hkey
    rcases List.mem_cons.mp hkey with hkey | hkey
    · rw [hleads name hkey.symm cycle hcycle hname]
      exact .inl hall
    · refine (h.complete cycle hcycle name hname hkey).imp_left fun h other hother => ?_
      exact (List.mem_append.mp (h other hother)).elim (hall other) id

/-- A component that leads into a cycle of which no name has been reported adds it. -/
theorem Names.add {found : List String} (h : components.Names place (found ++ reported) rest cycles)
    (hfound : IsCycleOf (components.Follows place) (found : Cycle String))
    (hnew : ∀ name ∈ found, name ∉ reported)
    (hleads : ∀ name, key = .text name → ∀ cycle, IsCycleOf (components.Follows place) cycle →
      name ∈ cycle → cycle = found) :
    components.Names place reported ((key, part) :: rest) (found :: cycles) where
  isCycle := List.forall_mem_cons.mpr ⟨hfound, h.isCycle⟩
  unreported := by
    refine List.forall_mem_cons.mpr ⟨hnew, fun names hnames name hname hmem => ?_⟩
    exact h.unreported names hnames name hname (List.mem_append_right _ hmem)
  nodup := by
    rw [List.map_cons, List.nodup_cons]
    refine ⟨fun hmem => ?_, h.nodup⟩
    obtain ⟨names, hnames, heq⟩ := List.mem_map.mp hmem
    obtain ⟨name, hname⟩ := List.exists_mem_of_ne_nil found fun hnil =>
      hfound.ne_nil (hnil ▸ Cycle.coe_nil)
    have hother : name ∈ (names : Cycle String) := heq ▸ Cycle.mem_coe_iff.mpr hname
    exact h.unreported names hnames name hother (List.mem_append_left _ hname)
  complete := by
    intro cycle hcycle name hname hkey
    rw [List.map_cons, List.mem_cons]
    rcases List.mem_cons.mp hkey with hkey | hkey
    · exact .inr (.inl (hleads name hkey.symm cycle hcycle hname))
    · rcases h.complete cycle hcycle name hname hkey with hall | hmem
      · by_cases hon : ∃ other ∈ cycle, other ∈ found
        · obtain ⟨other, hother, hmem⟩ := hon
          exact .inr (.inl (hcycle.eq_of_mem follows_rightUnique hfound hother hmem))
        · refine .inl fun other hother => (List.mem_append.mp (hall other hother)).resolve_left ?_
          exact fun hmem => hon ⟨other, hother, hmem⟩
      · exact .inr (.inr hmem)

end Steps

/-- From a name on a cycle a chain leads into no other. -/
theorem eq_of_isChain_of_mem {name first : String} {rest path : List String}
    (hfound : IsCycleOf (components.Follows place) (first :: rest : List String))
    (hpath : (name :: path).IsChain (components.Follows place)) (hfirst : first ∈ name :: path)
    {cycle : Cycle String} (hcycle : IsCycleOf (components.Follows place) cycle) (hname : name ∈ cycle) :
    cycle = (first :: rest : List String) := by
  refine hcycle.eq_of_mem follows_rightUnique hfound ?_ (List.mem_cons_self : first ∈ first :: rest)
  rcases List.mem_cons.mp hfirst with rfl | hfirst
  · exact hname
  · exact hcycle.mem_of_isChain follows_rightUnique hname hpath first hfirst

include hbindings

/-- What the search from a component finds. -/
theorem search_component (hdistinct : Datum.Distinct (components.entries place)) {key : Datum}
    {part : Part} (hentry : (key, part) ∈ components.entries place) :
    (components.aliasCycle? (components.size + 2) [key] part = none ∧
        ∀ name, key = .text name → ∀ cycle, IsCycleOf (components.Follows place) cycle →
          name ∉ cycle) ∨
      ∃ first rest, components.aliasCycle? (components.size + 2) [key] part =
          some ((first :: rest).map Datum.text, first) ∧
        IsCycleOf (components.Follows place) (first :: rest : List String) ∧
        ∀ name, key = .text name → ∀ cycle, IsCycleOf (components.Follows place) cycle →
          name ∈ cycle → cycle = (first :: rest : List String) := by
  have hsize := components.length_entries_le_size place
  have hcomponent : part ∈ (components.entries place).map (·.2) := List.mem_map_of_mem hentry
  by_cases htext : ∃ name, key = .text name
  · obtain ⟨name, rfl⟩ := htext
    have hget := Datum.lookup_eq_some_of_mem hdistinct hentry
    have hwalked : components.Walked place [name] part :=
      { chain := List.isChain_singleton _
        nodup := List.nodup_singleton _
        found := by simp [get?, hget]
        ending := by simp [get?, hget]
        component := hcomponent }
    have hfront : ∀ name ∈ ([] : List Datum), ∀ text, name ≠ .text text := nofun
    have hfound := found_aliasCycle? hbindings hfront (components.size + 2) hwalked
      (by rw [List.length_singleton]; omega)
    rw [List.nil_append, List.map_singleton] at hfound
    generalize components.aliasCycle? (components.size + 2) [.text name] part = found at hfound ⊢
    cases hfound with
    | none h =>
        refine .inl ⟨rfl, fun other hother => ?_⟩
        exact h other (Datum.text.inj hother ▸ rfl)
    | @cycle first rest path h hpath hfirst =>
        refine .inr ⟨first, rest, rfl, h, fun other hother cycle hcycle hmem => ?_⟩
        exact eq_of_isChain_of_mem h hpath hfirst hcycle (Datum.text.inj hother ▸ hmem)
  · have hwalked : components.Walked place [] part :=
      { chain := List.isChain_nil
        nodup := List.nodup_nil
        found := nofun
        ending := nofun
        component := hcomponent }
    have hfront : ∀ name ∈ [key], ∀ text, name ≠ .text text := fun name hname text heq =>
      htext ⟨text, List.mem_singleton.mp hname ▸ heq⟩
    have hfound := found_aliasCycle? hbindings hfront (components.size + 2) hwalked
      (by rw [List.length_nil]; omega)
    rw [List.map_nil, List.append_nil] at hfound
    generalize components.aliasCycle? (components.size + 2) [key] part = found at hfound ⊢
    cases hfound with
    | none h => exact .inl ⟨rfl, fun name hname => absurd ⟨name, hname⟩ htext⟩
    | cycle h _ _ => exact .inr ⟨_, _, rfl, h, fun name hname => absurd ⟨name, hname⟩ htext⟩

/-- The search from one component after the other names the cycles that have not been reported. -/
theorem exists_aliasCycles (hdistinct : Datum.Distinct (components.entries place)) {entries : Registry}
    (hentries : entries ⊆ components.entries place) {reported : List String}
    (hreported : components.Reported place reported) :
    ∃ cycles, components.aliasCycles place (reported.map .text) entries =
        .ok (cycles.map (components.cycleDiagnostic place)) ∧
      components.Names place reported entries cycles := by
  induction entries generalizing reported with
  | nil =>
      refine ⟨[], rfl, nofun, nofun, List.nodup_nil, ?_⟩
      intro cycle _ name _ hname
      cases hname
  | cons entry rest ih =>
      rcases entry with ⟨key, part⟩
      obtain ⟨hentry, hrest⟩ := List.cons_subset.mp hentries
      rcases search_component hbindings hdistinct hentry with
        ⟨hnone, hoff⟩ | ⟨first, tail, hsome, hcycle, hleads⟩
      · obtain ⟨cycles, hcycles, hnames⟩ := ih hrest hreported
        refine ⟨cycles, ?_, hnames.skip hoff⟩
        rw [aliasCycles]
        simp only [hnone]
        exact hcycles
      · obtain ⟨cycles, hcycles, hnames⟩ := ih hrest (hreported.append hcycle)
        rw [List.map_append] at hcycles
        rw [aliasCycles]
        simp only [hsome]
        have hany : (((first :: tail).map Datum.text).any fun name =>
            (reported.map Datum.text).any (Datum.sameKey name)) = true ↔
              ∃ name ∈ first :: tail, name ∈ reported := by
          simp only [List.any_map, List.any_eq_true, Function.comp_apply, Datum.text_sameKey,
            Datum.text.injEq, exists_eq_right]
        by_cases hseen : ∃ name ∈ first :: tail, name ∈ reported
        · rw [if_pos (hany.mpr hseen)]
          exact ⟨cycles, hcycles, hnames.again hreported hcycle hseen hleads⟩
        · rw [if_neg (hany.not.mpr hseen)]
          obtain ⟨following, -, link, hget, -⟩ :=
            hcycle.exists_rel (List.mem_cons_self : first ∈ first :: tail)
          refine ⟨(first :: tail) :: cycles, ?_, hnames.add hcycle ?_ hleads⟩
          · have hdisplay : (tail.map Datum.text).map Datum.display = tail := by
              rw [List.map_map]
              exact List.map_id tail
            rw [List.map_cons, List.cons_append] at hcycles
            simp only [List.map_cons, List.headD_cons, hget, List.cons_append, hcycles, hdisplay,
              cycleDiagnostic, Option.bind_some, Datum.display]
            rfl
          · exact fun name hname hmem => hseen ⟨name, hname, hmem⟩

omit hbindings in
/-- What is named for all components of a collection are all cycles. -/
theorem Names.listsCycles {cycles : List (List String)}
    (h : components.Names place [] (components.entries place) cycles) :
    ListsCycles (components.Follows place) cycles where
  nodup := h.nodup
  mem_iff := by
    intro cycle
    constructor
    · intro hmem
      obtain ⟨names, hnames, rfl⟩ := List.mem_map.mp hmem
      exact h.isCycle names hnames
    · intro hcycle
      induction cycle using Cycle.induction_on with
      | nil => exact absurd rfl hcycle.ne_nil
      | cons name rest _ =>
          have hname : name ∈ (name :: rest : Cycle String) := List.mem_cons_self
          obtain ⟨-, -, link, hget, -⟩ := hcycle.exists_rel hname
          obtain ⟨key, hkey, hmem⟩ := Datum.mem_of_lookup_eq_some hget
          rw [Datum.sameKey_text] at hkey
          refine (h.complete _ hcycle name hname ?_).resolve_left fun hall => ?_
          · exact hkey ▸ List.mem_map_of_mem hmem
          · exact absurd (hall name hname) List.not_mem_nil

end Search

/-- The errors of aliases: one for each cycle of parameters, then of bodies, then of responses. -/
theorem exists_aliasErrors (hbindings : ∀ place, components.Bindings place)
    (hdistinct : ∀ place, Datum.Distinct (components.entries place)) :
    ∃ cycles : Collection → List (List String),
      components.aliasErrors = .ok ([Collection.parameters, .requestBodies, .responses].flatMap
        fun place => (cycles place).map (components.cycleDiagnostic place)) ∧
      ∀ place, ListsCycles (components.Follows place) (cycles place) := by
  choose cycles hcycles hnames using fun place =>
    exists_aliasCycles (hbindings place) (hdistinct place) (List.Subset.refl _)
      (nofun : components.Reported place [])
  refine ⟨cycles, ?_, fun place => (hnames place).listsCycles⟩
  have hcycles' : ∀ place, components.aliasCycles place [] (components.entries place) =
      .ok ((cycles place).map (components.cycleDiagnostic place)) := hcycles
  simp only [aliasErrors, List.mapM_cons, List.mapM_nil, hcycles']
  rfl

end Components

end DocCompiler
