import DocCompiler.Document.Output
import DocCompiler.Proofs.Data.Sorted
import DocCompiler.Proofs.Document.Layout
import Mathlib.Data.List.Dedup
import Mathlib.Data.List.Induction
import Mathlib.Data.List.Perm.Basic

/-!
The paths of a document do not depend on the order in which operations were added to the model. A model groups
its operations by path; the document has the paths and the methods of each in an order of their own.
-/

namespace DocCompiler

/-- The path of an operation as a model has it. -/
def Endpoint.path (endpoint : Endpoint) : String :=
  endpoint.operation.path.display

/-- Where an operation stands: its path and its method. -/
def Endpoint.route (endpoint : Endpoint) : String × Datum :=
  (endpoint.path, endpoint.operation.method)

/-- An operation has one of the known methods. -/
def Endpoint.HasMethod (endpoint : Endpoint) : Prop :=
  ∃ name ∈ Layout.methodOrder, endpoint.operation.method = .text name

/-- The name of the method of an operation. -/
def Endpoint.methodName (endpoint : Endpoint) : String :=
  endpoint.operation.method.display

/-- The rank of an operation among those of its path. -/
def Endpoint.rank (endpoint : Endpoint) : Nat :=
  Layout.methodOrder.idxOf endpoint.methodName

/-- Operations with known methods that stand in different places. -/
structure Separate (endpoints : List Endpoint) : Prop where
  methods : ∀ endpoint ∈ endpoints, endpoint.HasMethod
  routes : (endpoints.map Endpoint.route).Nodup

/-- A model with one more operation, unless it is refused. -/
def Model.takeOperation (model : Model) (endpoint : Endpoint) : Except ModelError Model :=
  match model.addOperation endpoint.part with
  | (changed, none) => .ok changed
  | (_, some error) => .error error

/-- A model with operations added one after the other, up to the first that is refused. -/
def Model.takeOperations (model : Model) (endpoints : List Endpoint) : Except ModelError Model :=
  endpoints.foldlM Model.takeOperation model

/-- What a map holds after a value is put under a name. -/
theorem OrderedMap.mem_put_iff {α : Type} {map : OrderedMap α} {name : String} {value : α} {entry : String × α}
    (hdistinct : (map.map (·.1)).Nodup) :
    entry ∈ map.put name value ↔ entry = (name, value) ∨ entry ∈ map ∧ entry.1 ≠ name := by
  induction map with
  | nil => simp [put]
  | cons first rest ih =>
      rcases first with ⟨other, found⟩
      obtain ⟨hfirst, hrest⟩ := List.nodup_cons.mp hdistinct
      by_cases hname : other = name
      · subst hname
        have hne (hmem : entry ∈ rest) : entry.1 ≠ other := by
          intro hsame
          exact hfirst (List.mem_map.mpr ⟨entry, hmem, hsame⟩)
        simp only [put, beq_self_eq_true, if_true, List.mem_cons]
        constructor
        · rintro (rfl | hmem)
          · exact .inl rfl
          · exact .inr ⟨.inr hmem, hne hmem⟩
        · rintro (rfl | ⟨rfl | hmem, hother⟩)
          · exact .inl rfl
          · exact absurd rfl hother
          · exact .inr hmem
      · simp only [put, beq_iff_eq, hname, if_false, List.mem_cons, ih hrest]
        constructor
        · rintro (rfl | rfl | ⟨hmem, hother⟩)
          · exact .inr ⟨.inl rfl, hname⟩
          · exact .inl rfl
          · exact .inr ⟨.inr hmem, hother⟩
        · rintro (rfl | ⟨rfl | hmem, hother⟩)
          · exact .inr (.inl rfl)
          · exact .inl rfl
          · exact .inr (.inr ⟨hmem, hother⟩)

section Grouping

variable {endpoints : List Endpoint} {endpoint : Endpoint} {path : String}
  {paths : OrderedMap (List (Datum × Endpoint))}

/-- The operations of a path. -/
def operationsAt (endpoints : List Endpoint) (path : String) : List Endpoint :=
  endpoints.filter fun endpoint => endpoint.path == path

/-- Operations under their methods. -/
def byMethod (endpoints : List Endpoint) : List (Datum × Endpoint) :=
  endpoints.map fun endpoint => (endpoint.operation.method, endpoint)

theorem mem_operationsAt : endpoint ∈ operationsAt endpoints path ↔ endpoint ∈ endpoints ∧ endpoint.path = path := by
  rw [operationsAt, List.mem_filter, beq_iff_eq]

/-- A map of paths that holds operations: each path has those that stand there, in the order in which they were
added. -/
structure Groups (paths : OrderedMap (List (Datum × Endpoint))) (endpoints : List Endpoint) : Prop where
  distinct : (paths.map (·.1)).Nodup
  operations : ∀ entry ∈ paths, entry.2 = byMethod (operationsAt endpoints entry.1)
  names : ∀ name, name ∈ paths.map (·.1) ↔ name ∈ endpoints.map Endpoint.path

theorem groups_nil : Groups [] [] :=
  ⟨List.nodup_nil, nofun, fun _ => Iff.rfl⟩

theorem Groups.get? (h : Groups paths endpoints) (path : String) :
    (paths.get? path).getD [] = byMethod (operationsAt endpoints path) := by
  cases hget : paths.get? path with
  | some found => exact h.operations _ (OrderedMap.mem_of_get? hget)
  | none =>
      have hnone : operationsAt endpoints path = [] := by
        rw [operationsAt, List.filter_eq_nil_iff]
        intro endpoint hendpoint hpath
        have hname : path ∈ paths.map (·.1) :=
          (h.names path).mpr (List.mem_map.mpr ⟨endpoint, hendpoint, beq_iff_eq.mp hpath⟩)
        obtain ⟨entry, hentry, rfl⟩ := List.mem_map.mp hname
        rw [OrderedMap.get?_of_mem h.distinct hentry] at hget
        cases hget
      rw [hnone]
      rfl

/-- A step: an operation in a place of its own goes to the end of its path. -/
theorem Groups.put (h : Groups paths endpoints) (hmethod : endpoint.HasMethod)
    (hnew : endpoint.route ∉ endpoints.map Endpoint.route) :
    Groups (paths.put endpoint.path
      (Datum.insertEntry endpoint.operation.method endpoint ((paths.get? endpoint.path).getD [])))
      (endpoints ++ [endpoint]) := by
  obtain ⟨method, -, hmethod⟩ := hmethod
  have hlookup : Datum.lookup endpoint.operation.method (byMethod (operationsAt endpoints endpoint.path)) = none := by
    rw [Datum.lookup_eq_none_iff]
    intro entry hentry
    obtain ⟨other, hother, rfl⟩ := List.mem_map.mp hentry
    obtain ⟨hother, hpath⟩ := mem_operationsAt.mp hother
    rw [← Bool.not_eq_true, hmethod, Datum.sameKey_text]
    intro hsame
    exact hnew (List.mem_map.mpr ⟨other, hother, Prod.ext hpath (hsame.trans hmethod.symm)⟩)
  have hvalue : Datum.insertEntry endpoint.operation.method endpoint ((paths.get? endpoint.path).getD []) =
      byMethod (operationsAt (endpoints ++ [endpoint]) endpoint.path) := by
    rw [h.get?, Datum.insertEntry_of_lookup_eq_none hlookup]
    simp [operationsAt, byMethod]
  rw [hvalue]
  -- Only the entry of the path of the new operation is put; it may have stood there before.
  refine ⟨OrderedMap.nodup_names_put h.distinct, fun entry hentry => ?_, fun name => ?_⟩
  · rcases (OrderedMap.mem_put_iff h.distinct).mp hentry with rfl | ⟨hold, hother⟩
    · rfl
    · rw [h.operations entry hold]
      simp [operationsAt, hother.symm]
  · simp only [List.mem_map, OrderedMap.mem_put_iff h.distinct, List.mem_append, List.mem_singleton]
    have hnames := h.names name
    simp only [List.mem_map] at hnames
    constructor
    · rintro ⟨entry, rfl | ⟨hold, -⟩, rfl⟩
      · exact ⟨endpoint, .inr rfl, rfl⟩
      · obtain ⟨other, hother, hpath⟩ := hnames.mp ⟨entry, hold, rfl⟩
        exact ⟨other, .inl hother, hpath⟩
    · rintro ⟨other, hother | rfl, rfl⟩
      · by_cases hpath : other.path = endpoint.path
        · exact ⟨_, .inl rfl, hpath.symm⟩
        · obtain ⟨entry, hentry, hname⟩ := hnames.mpr ⟨other, hother, rfl⟩
          exact ⟨entry, .inr ⟨hentry, fun hsame => hpath (hname.symm.trans hsame)⟩, hname⟩
      · exact ⟨_, .inl rfl, rfl⟩

end Grouping

section Adding

variable {model : Model} {endpoints : List Endpoint} {endpoint : Endpoint}

theorem Model.takeOperation_of_unfrozen {model : Model} (hunfrozen : model.frozen = false)
    (hmethod : endpoint.HasMethod) :
    model.takeOperation endpoint = .ok (model.putEndpoint endpoint.path endpoint) := by
  obtain ⟨method, -, hmethod⟩ := hmethod
  have hadded : model.addOperation endpoint.part = (model.putEndpoint endpoint.path endpoint, none) := by
    simp [addOperation, Endpoint.part, Part.endpoint?, change, hunfrozen, hmethod, Datum.isHashable, Endpoint.path]
  rw [takeOperation, hadded]

theorem Separate.of_append {rest : List Endpoint} (h : Separate (endpoints ++ rest)) : Separate endpoints := by
  refine ⟨fun endpoint hendpoint => h.methods endpoint (List.mem_append_left _ hendpoint), ?_⟩
  have hroutes := h.routes
  rw [List.map_append] at hroutes
  exact hroutes.of_append_left

/-- A run: operations in places of their own are all taken, and only the paths of the model change. -/
theorem Separate.takeOperations (h : Separate endpoints) (hunfrozen : model.frozen = false)
    (hpaths : model.paths = []) :
    ∃ paths, model.takeOperations endpoints = .ok { model with paths } ∧ Groups paths endpoints := by
  induction endpoints using List.reverseRecOn with
  | nil => exact ⟨[], by rw [← hpaths]; rfl, groups_nil⟩
  | append_singleton rest endpoint ih =>
      obtain ⟨paths, htaken, hgroups⟩ := ih h.of_append
      have hmethod := h.methods endpoint (List.mem_append_right _ List.mem_cons_self)
      have hnew : endpoint.route ∉ rest.map Endpoint.route := by
        intro hmem
        have hroutes := h.routes
        rw [List.map_append, List.nodup_append] at hroutes
        exact hroutes.2.2 _ hmem _ List.mem_cons_self rfl
      refine ⟨_, ?_, hgroups.put hmethod hnew⟩
      rw [Model.takeOperations, List.foldlM_append]
      change (model.takeOperations rest >>= fun taken => [endpoint].foldlM Model.takeOperation taken) = _
      rw [htaken]
      change (Model.takeOperation { model with paths } endpoint >>= pure) = _
      have hunfrozen' : { model with paths }.frozen = false := hunfrozen
      rw [Model.takeOperation_of_unfrozen hunfrozen' hmethod]
      rfl

end Adding

section Layout

variable {model : Model} {endpoints others : List Endpoint} {endpoint : Endpoint}

/-- Whether an operation comes before another one of its path, or with it. -/
def Endpoint.before (first second : Endpoint) : Bool :=
  decide (first.rank ≤ second.rank)

theorem Endpoint.HasMethod.methodRank (h : endpoint.HasMethod) :
    Layout.methodRank endpoint.operation.method = .ok endpoint.rank := by
  obtain ⟨name, hname, hmethod⟩ := h
  rw [Endpoint.rank, Endpoint.methodName, hmethod]
  simp only [Layout.methodOrder, List.mem_cons, List.not_mem_nil, or_false] at hname
  rcases hname with rfl | rfl | rfl | rfl | rfl | rfl | rfl | rfl
  all_goals rfl

/-- What has a result for each member has the list of these results. -/
theorem Result.mapM_of_forall {ε α β : Type} {f : α → Except ε β} {g : α → β} {items : List α}
    (h : ∀ item ∈ items, f item = .ok (g item)) : items.mapM f = .ok (items.map g) := by
  rw [Result.mapM_eq_ok_iff, List.forall₂_map_right_iff, List.forall₂_same]
  exact h

/-- The operations of a path are laid out in the order of their methods. -/
theorem Layout.methods_byMethod (h : ∀ endpoint ∈ endpoints, endpoint.HasMethod) :
    Layout.methods (byMethod endpoints) =
      (endpoints.mergeSort Endpoint.before).mapM (fun endpoint => do
        return (endpoint.operation.method, ← Layout.operation endpoint)) >>= fun laid => .ok (.map laid) := by
  have hranked : ((byMethod endpoints).mapM fun entry => do
      return (← Layout.methodRank entry.1, entry.1, entry.2) :
        Except ShapeError (List (Nat × Datum × Endpoint))) =
      .ok (endpoints.map fun endpoint => (endpoint.rank, endpoint.operation.method, endpoint)) := by
    rw [byMethod, List.mapM_map]
    refine Result.mapM_of_forall fun endpoint hendpoint => ?_
    simp only [Function.comp_apply, (h endpoint hendpoint).methodRank]
    rfl
  have hsorted : (endpoints.map fun endpoint => (endpoint.rank, endpoint.operation.method, endpoint)).mergeSort
      (fun a b => decide (a.1 ≤ b.1)) =
      (endpoints.mergeSort Endpoint.before).map fun endpoint =>
        (endpoint.rank, endpoint.operation.method, endpoint) := by
    symm
    apply List.map_mergeSort
    intro first _ second _
    rfl
  unfold Layout.methods
  rw [hranked]
  change ((((endpoints.map fun endpoint => (endpoint.rank, endpoint.operation.method, endpoint)).mergeSort
    fun a b => decide (a.1 ≤ b.1)).mapM fun entry => do
      return (entry.2.1, ← Layout.operation entry.2.2) : Except ShapeError (List (Datum × Datum))) >>= _) = _
  rw [hsorted, List.mapM_map]
  rfl

/-- The paths of operations, sorted. -/
def sortedPaths (endpoints : List Endpoint) : List String :=
  (endpoints.map Endpoint.path).dedup.mergeSort (Keyed.le id)

/-- The operations of a path in the order of their methods. -/
def sortedAt (endpoints : List Endpoint) (path : String) : List Endpoint :=
  (operationsAt endpoints path).mergeSort Endpoint.before

theorem mem_sortedPaths {path : String} : path ∈ sortedPaths endpoints ↔ path ∈ endpoints.map Endpoint.path := by
  rw [sortedPaths, List.mem_mergeSort, List.mem_dedup]

theorem mem_sortedAt {path : String} :
    endpoint ∈ sortedAt endpoints path ↔ endpoint ∈ endpoints ∧ endpoint.path = path := by
  rw [sortedAt, List.mem_mergeSort, mem_operationsAt]

/-- The paths of a model that holds operations are laid out in their order. -/
theorem Groups.layout (h : Groups model.paths endpoints) (hmethods : ∀ endpoint ∈ endpoints, endpoint.HasMethod) :
    Layout.paths model =
      (sortedPaths endpoints).mapM (fun path => do
        return (path, ← (sortedAt endpoints path).mapM (fun endpoint => do
          return (endpoint.operation.method, ← Layout.operation endpoint)) >>= fun laid => .ok (.map laid))) >>=
        fun found => .ok (.record found) := by
  let names := model.paths.map (·.1)
  have hpaths : model.paths = names.map fun name => (name, byMethod (operationsAt endpoints name)) := by
    rw [List.map_map]
    symm
    refine (List.map_congr_left fun entry hentry => ?_).trans (List.map_id _)
    exact Prod.ext rfl (h.operations entry hentry).symm
  have hnames : names.mergeSort (Keyed.le id) = sortedPaths endpoints := by
    refine Keyed.mergeSort_eq_of_perm ?_ (by simpa using List.nodup_dedup _)
    rw [List.perm_ext_iff_of_nodup h.distinct (List.nodup_dedup _)]
    intro name
    rw [List.mem_dedup]
    exact h.names name
  have hsorted : model.paths.mergeSort (fun a b => decide (a.1 ≤ b.1)) =
      (sortedPaths endpoints).map fun name => (name, byMethod (operationsAt endpoints name)) := by
    rw [hpaths, ← hnames]
    symm
    apply List.map_mergeSort
    intro first _ second _
    rfl
  unfold Layout.paths
  simp only [hsorted, List.mapM_map]
  have hstep : (fun entry : String × List (Datum × Endpoint) => do
      return (entry.1, ← Layout.methods entry.2) : _ → Except ShapeError (String × Datum)) ∘
        (fun name => (name, byMethod (operationsAt endpoints name))) = fun path => do
      return (path, ← (sortedAt endpoints path).mapM (fun endpoint => do
        return (endpoint.operation.method, ← Layout.operation endpoint)) >>= fun laid => .ok (.map laid)) := by
    funext path
    have hknown (endpoint : Endpoint) (hendpoint : endpoint ∈ operationsAt endpoints path) : endpoint.HasMethod :=
      hmethods endpoint (mem_operationsAt.mp hendpoint).1
    simp only [Function.comp_apply, Layout.methods_byMethod hknown]
    rfl
  rw [hstep]
  rfl

theorem sortedPaths_of_perm (hperm : others.Perm endpoints) : sortedPaths others = sortedPaths endpoints := by
  refine Keyed.mergeSort_eq_of_perm ?_ (by simpa using List.nodup_dedup _)
  rw [List.perm_ext_iff_of_nodup (List.nodup_dedup _) (List.nodup_dedup _)]
  intro name
  rw [List.mem_dedup, List.mem_dedup]
  exact (hperm.map _).mem_iff

theorem Endpoint.HasMethod.eq_text (h : endpoint.HasMethod) :
    endpoint.operation.method = .text endpoint.methodName := by
  obtain ⟨name, -, hmethod⟩ := h
  rw [Endpoint.methodName, hmethod]
  rfl

theorem Endpoint.HasMethod.mem_methodOrder (h : endpoint.HasMethod) : endpoint.methodName ∈ Layout.methodOrder := by
  obtain ⟨name, hname, hmethod⟩ := h
  rw [Endpoint.methodName, hmethod]
  exact hname

/-- Operations with the same rank in the same path are one operation. -/
theorem Separate.eq_of_rank (h : Separate endpoints) {other : Endpoint} (hendpoint : endpoint ∈ endpoints)
    (hother : other ∈ endpoints) (hpath : endpoint.path = other.path) (hrank : endpoint.rank = other.rank) :
    endpoint = other := by
  have hmethod := h.methods endpoint hendpoint
  have hname : endpoint.methodName = other.methodName :=
    (List.idxOf_inj hmethod.mem_methodOrder).mp hrank
  refine List.inj_on_of_nodup_map h.routes hendpoint hother (Prod.ext hpath ?_)
  change endpoint.operation.method = other.operation.method
  rw [hmethod.eq_text, (h.methods other hother).eq_text, hname]

theorem before_trans (first second third : Endpoint) (h : first.before second = true)
    (hnext : second.before third = true) :
    first.before third = true := by
  simp only [Endpoint.before, decide_eq_true_eq] at h hnext ⊢
  exact Nat.le_trans h hnext

theorem before_total (first second : Endpoint) : (first.before second || second.before first) = true := by
  simp only [Endpoint.before, Bool.or_eq_true, decide_eq_true_eq]
  exact Nat.le_total _ _

theorem Separate.sortedAt_of_perm (h : Separate endpoints) (hperm : others.Perm endpoints) (path : String) :
    sortedAt others path = sortedAt endpoints path := by
  refine Keyed.mergeSort_eq_of_antisymm before_trans before_total (hperm.filter _) ?_
  intro first hfirst second hsecond hle hge
  obtain ⟨hfirst, hpath⟩ := mem_operationsAt.mp hfirst
  obtain ⟨hsecond, hsame⟩ := mem_operationsAt.mp hsecond
  simp only [Endpoint.before, decide_eq_true_eq] at hle hge
  exact h.eq_of_rank hfirst hsecond (hpath.trans hsame.symm) (Nat.le_antisymm hle hge)

theorem Separate.of_perm (h : Separate endpoints) (hperm : others.Perm endpoints) : Separate others :=
  ⟨fun endpoint hendpoint => h.methods endpoint (hperm.mem_iff.mp hendpoint), (hperm.map _).nodup_iff.mpr h.routes⟩

theorem Separate.nodup_sortedAt (h : Separate endpoints) (path : String) : (sortedAt endpoints path).Nodup :=
  (List.mergeSort_perm _ _).nodup_iff.mpr (h.routes.of_map.filter _)

/-- Ranks ascend strictly along the operations of a path. -/
theorem Separate.pairwise_sortedAt (h : Separate endpoints) (path : String) :
    (sortedAt endpoints path).Pairwise fun first second => first.rank < second.rank := by
  have hsorted : (sortedAt endpoints path).Pairwise fun first second => first.before second = true :=
    List.pairwise_mergeSort before_trans before_total _
  refine (hsorted.and (h.nodup_sortedAt path)).imp_of_mem fun {first second} hfirst hsecond hboth => ?_
  obtain ⟨hbefore, hne⟩ := hboth
  obtain ⟨hfirst, hpath⟩ := mem_sortedAt.mp hfirst
  obtain ⟨hsecond, hsame⟩ := mem_sortedAt.mp hsecond
  refine Nat.lt_of_le_of_ne (of_decide_eq_true hbefore) fun hrank => hne ?_
  exact h.eq_of_rank hfirst hsecond (hpath.trans hsame.symm) hrank

/-- Known methods whose ranks ascend stand in the order of methods. -/
theorem sublist_methodOrder {names : List String} (hknown : ∀ name ∈ names, name ∈ Layout.methodOrder)
    (hascending : names.Pairwise fun first second => Layout.methodOrder.idxOf first < Layout.methodOrder.idxOf second) :
    names.Sublist Layout.methodOrder := by
  have horder : Layout.methodOrder.Pairwise fun first second =>
      Layout.methodOrder.idxOf first < Layout.methodOrder.idxOf second := by decide
  have hnodup : names.Nodup := hascending.imp fun {first second} hlt => by
    rintro rfl
    exact Nat.lt_irrefl _ hlt
  have hperm : names.Perm (Layout.methodOrder.filter (· ∈ names)) := by
    rw [List.perm_ext_iff_of_nodup hnodup (List.Nodup.filter _ (by decide))]
    intro name
    rw [List.mem_filter, decide_eq_true_eq]
    exact ⟨fun hname => ⟨hknown name hname, hname⟩, And.right⟩
  have heq : names = Layout.methodOrder.filter (· ∈ names) :=
    hperm.eq_of_pairwise (fun _ _ _ _ hlt hgt => absurd hgt (Nat.lt_asymm hlt)) hascending (horder.filter _)
  rw [heq]
  exact List.filter_sublist

/-- What a document shows of operations: its paths ascend, each has operations, the methods of each stand in their
order, and every operation stands once under its path and its method. -/
structure Shows (endpoints : List Endpoint) (sections : List (String × List (String × Datum))) : Prop where
  ascending : (sections.map Prod.fst).Pairwise (· < ·)
  inhabited : ∀ found ∈ sections, found.2 ≠ []
  methods : ∀ found ∈ sections, (found.2.map Prod.fst).Sublist Layout.methodOrder
  complete : (sections.flatMap fun found => found.2.map fun entry =>
      (found.1, Datum.text entry.1, (Except.ok entry.2 : Except ShapeError Datum))).Perm
    (endpoints.map fun endpoint => (endpoint.path, endpoint.operation.method, Layout.operation endpoint))

/-- The rendering of an operation that has one. -/
def Endpoint.rendering (endpoint : Endpoint) : Datum :=
  match Layout.operation endpoint with
  | .ok rendered => rendered
  | .error _ => .null

/-- The renderings of operations by path and method. -/
def sections (endpoints : List Endpoint) : List (String × List (String × Datum)) :=
  (sortedPaths endpoints).map fun path =>
    (path, (sortedAt endpoints path).map fun endpoint => (endpoint.methodName, endpoint.rendering))

theorem Endpoint.operation_eq_rendering (h : ∃ rendered, Layout.operation endpoint = .ok rendered) :
    Layout.operation endpoint = .ok endpoint.rendering := by
  obtain ⟨rendered, hrendered⟩ := h
  rw [Endpoint.rendering, hrendered]

/-- Members collected by the values of a key are all members. -/
theorem flatMap_filter_perm {α : Type} (key : α → String) {names : List String} (hnames : names.Nodup)
    (items : List α) :
    (names.flatMap fun name => items.filter fun item => key item == name).Perm
      (items.filter fun item => decide (key item ∈ names)) := by
  induction names with
  | nil => simp
  | cons name rest ih =>
      obtain ⟨hname, hrest⟩ := List.nodup_cons.mp hnames
      rw [List.flatMap_cons]
      have hsplit := List.filter_append_perm (fun item => key item == name)
        (items.filter fun item => decide (key item ∈ name :: rest))
      rw [List.filter_filter, List.filter_filter] at hsplit
      have hhead : (items.filter fun item => key item == name && decide (key item ∈ name :: rest)) =
          items.filter fun item => key item == name := by
        refine List.filter_congr fun item _ => ?_
        by_cases hkey : key item = name
        · simp [hkey]
        · simp [hkey]
      have htail : (items.filter fun item => !(key item == name) && decide (key item ∈ name :: rest)) =
          items.filter fun item => decide (key item ∈ rest) := by
        refine List.filter_congr fun item _ => ?_
        by_cases hkey : key item = name
        · simp [hkey, hname]
        · simp [hkey]
      rw [hhead, htail] at hsplit
      exact ((ih hrest).append_left _).trans hsplit

theorem nodup_sortedPaths (endpoints : List Endpoint) : (sortedPaths endpoints).Nodup :=
  (List.mergeSort_perm _ _).nodup_iff.mpr (List.nodup_dedup _)

theorem pairwise_sortedPaths (endpoints : List Endpoint) : (sortedPaths endpoints).Pairwise (· < ·) := by
  refine ((Keyed.pairwise_mergeSort id _).and (nodup_sortedPaths endpoints)).imp fun {first second} hboth => ?_
  obtain ⟨hle, hne⟩ := hboth
  by_contra hlt
  exact hne (String.le_antisymm (of_decide_eq_true hle) (String.not_lt.mp hlt))

/-- All operations are those of their paths together. -/
theorem flatMap_sortedAt_perm (endpoints : List Endpoint) :
    ((sortedPaths endpoints).flatMap (sortedAt endpoints)).Perm endpoints := by
  have hcollected := flatMap_filter_perm Endpoint.path (nodup_sortedPaths endpoints) endpoints
  have hall : (endpoints.filter fun endpoint => decide (endpoint.path ∈ sortedPaths endpoints)) = endpoints := by
    rw [List.filter_eq_self]
    intro endpoint hendpoint
    exact decide_eq_true (mem_sortedPaths.mpr (List.mem_map_of_mem hendpoint))
  rw [hall] at hcollected
  exact (List.Perm.flatMap_left _ fun path _ => List.mergeSort_perm _ _).trans hcollected

theorem Separate.shows (h : Separate endpoints)
    (hrendered : ∀ endpoint ∈ endpoints, ∃ rendered, Layout.operation endpoint = .ok rendered) :
    Shows endpoints (sections endpoints) := by
  refine ⟨?_, fun found hfound => ?_, fun found hfound => ?_, ?_⟩
  · have hpaths : (sections endpoints).map Prod.fst = sortedPaths endpoints := by
      rw [sections, List.map_map]
      exact List.map_id _
    rw [hpaths]
    exact pairwise_sortedPaths endpoints
  · obtain ⟨path, hpath, rfl⟩ := List.mem_map.mp hfound
    obtain ⟨endpoint, hendpoint, hpath⟩ := List.mem_map.mp (mem_sortedPaths.mp hpath)
    exact List.ne_nil_of_mem (List.mem_map_of_mem (mem_sortedAt.mpr ⟨hendpoint, hpath⟩))
  · obtain ⟨path, -, rfl⟩ := List.mem_map.mp hfound
    rw [List.map_map]
    refine sublist_methodOrder (fun name hname => ?_) ?_
    · obtain ⟨endpoint, hendpoint, rfl⟩ := List.mem_map.mp hname
      exact (h.methods endpoint (mem_sortedAt.mp hendpoint).1).mem_methodOrder
    · rw [List.pairwise_map]
      exact h.pairwise_sortedAt path
  · rw [sections, List.flatMap_map]
    refine List.Perm.trans (List.Perm.of_eq ?_)
      ((flatMap_sortedAt_perm endpoints).map fun endpoint =>
        (endpoint.path, endpoint.operation.method, Layout.operation endpoint))
    rw [List.map_flatMap]
    refine List.flatMap_congr fun path _ => ?_
    rw [List.map_map]
    refine List.map_congr_left fun endpoint hendpoint => ?_
    obtain ⟨hmem, rfl⟩ := mem_sortedAt.mp hendpoint
    rw [Endpoint.operation_eq_rendering (hrendered endpoint hmem), (h.methods endpoint hmem).eq_text]
    rfl

/-- Operations that have renderings are laid out by path and method. -/
theorem Separate.layout_sections (h : Separate endpoints) (hgroups : Groups model.paths endpoints)
    (hrendered : ∀ endpoint ∈ endpoints, ∃ rendered, Layout.operation endpoint = .ok rendered) :
    Layout.paths model = .ok (.record ((sections endpoints).map fun found => (found.1, .record found.2))) := by
  have hlaid (path : String) : (sortedAt endpoints path).mapM (fun endpoint => do
      return (endpoint.operation.method, ← Layout.operation endpoint) : _ → Except ShapeError (Datum × Datum)) =
      .ok ((sortedAt endpoints path).map fun endpoint => (.text endpoint.methodName, endpoint.rendering)) := by
    refine Result.mapM_of_forall fun endpoint hendpoint => ?_
    obtain ⟨hendpoint, -⟩ := mem_sortedAt.mp hendpoint
    rw [Endpoint.operation_eq_rendering (hrendered endpoint hendpoint), (h.methods endpoint hendpoint).eq_text]
    rfl
  have hpaths : (sortedPaths endpoints).mapM (fun path => do
      return (path, ← (sortedAt endpoints path).mapM (fun endpoint => do
        return (endpoint.operation.method, ← Layout.operation endpoint)) >>= fun laid => .ok (.map laid)) :
          _ → Except ShapeError (String × Datum)) =
      .ok ((sections endpoints).map fun found => (found.1, .record found.2)) := by
    rw [sections, List.map_map]
    refine Result.mapM_of_forall fun path _ => ?_
    simp only [hlaid, Function.comp_apply, Datum.record, List.map_map]
    rfl
  rw [hgroups.layout h.methods, hpaths]
  rfl

/-- Paths are laid out only when every operation has a rendering. -/
theorem Groups.rendered_of_layout (h : Groups model.paths endpoints)
    (hmethods : ∀ endpoint ∈ endpoints, endpoint.HasMethod) {paths : Datum} (hpaths : Layout.paths model = .ok paths)
    (hendpoint : endpoint ∈ endpoints) : ∃ rendered, Layout.operation endpoint = .ok rendered := by
  rw [h.layout hmethods, Result.bind_eq_ok_iff] at hpaths
  obtain ⟨found, hfound, -⟩ := hpaths
  obtain ⟨entry, -, hentry⟩ :=
    Result.ok_of_mapM_eq_ok hfound (mem_sortedPaths.mpr (List.mem_map_of_mem hendpoint))
  simp only [Result.bind_eq_ok_iff] at hentry
  obtain ⟨_, ⟨laid, hlaid, -⟩, -⟩ := hentry
  obtain ⟨entry, -, hentry⟩ := Result.ok_of_mapM_eq_ok hlaid (mem_sortedAt.mpr ⟨hendpoint, rfl⟩)
  simp only [Result.bind_eq_ok_iff] at hentry
  obtain ⟨rendered, hrendered, -⟩ := hentry
  exact ⟨rendered, hrendered⟩

/-- Models that differ in the order in which operations were added have the same document. -/
theorem Separate.layout_eq (h : Separate endpoints) (hperm : others.Perm endpoints)
    {paths again : OrderedMap (List (Datum × Endpoint))} (hgroups : Groups paths endpoints)
    (hagain : Groups again others) :
    Layout.paths { model with paths := again } = Layout.paths { model with paths } := by
  have hfirst : Groups { model with paths }.paths endpoints := hgroups
  have hsecond : Groups { model with paths := again }.paths others := hagain
  rw [hfirst.layout h.methods, hsecond.layout (h.of_perm hperm).methods, sortedPaths_of_perm hperm]
  simp only [h.sortedAt_of_perm hperm]

end Layout

/-- Operations in places of their own are all added, in whichever order. The paths of the document, and with them
the document and its texts, are the same for every order, and there are paths exactly when every operation has a
rendering; then they show each operation once, sorted by path and method. -/
theorem takeOperations_paths {model : Model} {endpoints : List Endpoint} (hunfrozen : model.frozen = false)
    (hpaths : model.paths = []) (hseparate : Separate endpoints) :
    ∃ added, model.takeOperations endpoints = .ok added ∧
      (∀ others : List Endpoint, others.Perm endpoints →
        ∃ again, model.takeOperations others = .ok again ∧ Layout.paths again = Layout.paths added ∧
          ∀ version examples, again.emit version examples = added.emit version examples) ∧
      ((∃ paths, Layout.paths added = .ok paths) ↔
        ∀ endpoint ∈ endpoints, ∃ rendered, Layout.operation endpoint = .ok rendered) ∧
      ∀ paths, Layout.paths added = .ok paths →
        ∃ sections, Shows endpoints sections ∧
          paths = .record (sections.map fun found => (found.1, .record found.2)) := by
  obtain ⟨paths, htaken, hgroups⟩ := hseparate.takeOperations hunfrozen hpaths
  have hgroups' : Groups { model with paths }.paths endpoints := hgroups
  have hlaid := hseparate.layout_sections hgroups'
  refine ⟨_, htaken, fun others hperm => ?_, ⟨?_, fun hrendered => ⟨_, hlaid hrendered⟩⟩, fun found hfound => ?_⟩
  · obtain ⟨again, hagain, hothers⟩ := (hseparate.of_perm hperm).takeOperations hunfrozen hpaths
    have hsame : Layout.paths { model with paths := again } = Layout.paths { model with paths } :=
      hseparate.layout_eq hperm hgroups hothers
    refine ⟨_, hagain, hsame, fun version examples => ?_⟩
    have hdocument :
        Layout.document { model with paths := again } version = Layout.document { model with paths } version := by
      simp only [Layout.document, hsame]
    simp only [Model.emit, hdocument]
  · rintro ⟨found, hfound⟩ endpoint hendpoint
    exact hgroups'.rendered_of_layout hseparate.methods hfound hendpoint
  · have hrendered (endpoint : Endpoint) (hendpoint : endpoint ∈ endpoints) :=
      hgroups'.rendered_of_layout hseparate.methods hfound hendpoint
    exact ⟨_, hseparate.shows hrendered, (Except.ok.inj ((hlaid hrendered).symm.trans hfound)).symm⟩

namespace Ledger

/-- An operation with a method, a path and an id. -/
def endpoint (method path id : String) : Endpoint where
  operation := { method := .text method, path := .text path, operationId := .text id }

/-- Operations on two paths, in no order. -/
def endpoints : List Endpoint :=
  [endpoint "post" "/b" "store", endpoint "get" "/a" "all", endpoint "delete" "/b" "drop", endpoint "get" "/b" "show"]

theorem separate : Separate endpoints := by
  refine ⟨fun found hfound => ?_, ?_⟩
  · simp only [endpoints, List.mem_cons, List.not_mem_nil, or_false] at hfound
    rcases hfound with rfl | rfl | rfl | rfl
    all_goals exact ⟨_, by decide, rfl⟩
  · simp [endpoints, endpoint, Endpoint.route, Endpoint.path, Datum.display]

theorem rendered {found : Endpoint} (h : found ∈ endpoints) : ∃ rendered, Layout.operation found = .ok rendered := by
  simp only [endpoints, List.mem_cons, List.not_mem_nil, or_false] at h
  rcases h with rfl | rfl | rfl | rfl
  all_goals exact ⟨_, rfl⟩

end Ledger

/-- Operations of two paths that are added in any order stand sorted, each once. -/
theorem takeOperations_paths_ledger :
    ({} : Model).frozen = false ∧ ({} : Model).paths = [] ∧ Separate Ledger.endpoints ∧
      ∃ added, ({} : Model).takeOperations Ledger.endpoints = .ok added ∧
        (∀ others : List Endpoint, others.Perm Ledger.endpoints →
          ∃ again, ({} : Model).takeOperations others = .ok again ∧ Layout.paths again = Layout.paths added) ∧
        ∃ sections, Shows Ledger.endpoints sections ∧
          Layout.paths added = .ok (.record (sections.map fun found => (found.1, .record found.2))) := by
  have hunfrozen : ({} : Model).frozen = false := rfl
  have hempty : ({} : Model).paths = [] := rfl
  obtain ⟨added, hadded, hothers, hrendered, hshows⟩ := takeOperations_paths hunfrozen hempty Ledger.separate
  obtain ⟨paths, hpaths⟩ := hrendered.mpr fun _ => Ledger.rendered
  obtain ⟨sections, hsections, rfl⟩ := hshows paths hpaths
  refine ⟨hunfrozen, hempty, Ledger.separate, added, hadded, fun others hperm => ?_, sections, hsections, hpaths⟩
  obtain ⟨again, hagain, hsame, -⟩ := hothers others hperm
  exact ⟨again, hagain, hsame⟩

end DocCompiler
