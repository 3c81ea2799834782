import Mathlib.Data.List.Forall2
import Mathlib.Data.List.ReduceOption

/-!
Results that may be errors: what a result that is there says about the results it is made of.
-/

namespace DocCompiler.Result

variable {ε α β : Type}

@[simp] theorem bind_eq_ok_iff {result : Except ε α} {next : α → Except ε β} {value : β} :
    result >>= next = .ok value ↔ ∃ first, result = .ok first ∧ next first = .ok value := by
  cases result with
  | error error => simp [bind, Except.bind]
  | ok first => simp [bind, Except.bind]

@[simp] theorem pure_eq_ok_iff {first second : α} :
    (pure first : Except ε α) = .ok second ↔ first = second := by
  simp [pure, Except.pure]

@[simp] theorem map_eq_ok_iff {f : α → β} {result : Except ε α} {value : β} :
    f <$> result = .ok value ↔ ∃ first, result = .ok first ∧ f first = value := by
  cases result with
  | error error => simp [Functor.map, Except.map]
  | ok first => simp [Functor.map, Except.map]

theorem bind_eq_error_iff {result : Except ε α} {next : α → Except ε β} {error : ε} :
    result >>= next = .error error ↔
      result = .error error ∨ ∃ first, result = .ok first ∧ next first = .error error := by
  cases result with
  | error other => simp [bind, Except.bind]
  | ok first => simp [bind, Except.bind]

theorem map_eq_error_iff {f : α → β} {result : Except ε α} {error : ε} :
    f <$> result = .error error ↔ result = .error error := by
  cases result with
  | error other => simp [Functor.map, Except.map]
  | ok first => simp [Functor.map, Except.map]

@[simp] theorem throw_ne_ok {error : ε} {value : α} :
    (throw error : Except ε α) ≠ .ok value := by
  simp [throw, throwThe, MonadExceptOf.throw]

section Run

variable {σ : Type} {state later : σ} {next : α → StateT σ (Except ε) β} {step : StateT σ (Except ε) α}

theorem run_bind_of_ok {found : α} (h : step.run state = .ok (found, later)) :
    (step >>= next).run state = (next found).run later := by
  rw [StateT.run_bind, h]
  rfl

theorem run_bind_of_error {error : ε} (h : step.run state = .error error) :
    (step >>= next).run state = .error error := by
  rw [StateT.run_bind, h]
  rfl

end Run

/-- All members have results, and these come in order. -/
theorem mapM_eq_ok_iff {f : α → Except ε β} {items : List α} {results : List β} :
    items.mapM f = .ok results ↔ List.Forall₂ (fun item result => f item = .ok result) items results := by
  induction items generalizing results with
  | nil =>
      rw [List.mapM_nil, pure_eq_ok_iff, List.forall₂_nil_left_iff]
      exact eq_comm
  | cons item rest ih =>
      rw [List.mapM_cons]
      simp only [bind_eq_ok_iff, pure_eq_ok_iff, ih, List.forall₂_cons_left_iff]
      constructor
      · rintro ⟨first, hfirst, others, hothers, rfl⟩
        exact ⟨first, others, hfirst, hothers, rfl⟩
      · rintro ⟨first, others, hfirst, hothers, rfl⟩
        exact ⟨first, hfirst, others, hothers, rfl⟩

/-- Members that are each read back are read back together. -/
theorem mapM_map_eq_ok {f : α → Except ε β} {g : β → α} {items : List β}
    (h : ∀ item ∈ items, f (g item) = .ok item) : (items.map g).mapM f = .ok items := by
  rw [mapM_eq_ok_iff, List.forall₂_map_left_iff, List.forall₂_same]
  exact h

theorem mapM_ok_of_forall {f : α → Except ε β} {items : List α}
    (h : ∀ item ∈ items, ∃ result, f item = .ok result) : ∃ results, items.mapM f = .ok results := by
  induction items with
  | nil => exact ⟨[], rfl⟩
  | cons item rest ih =>
      obtain ⟨first, hfirst⟩ := h item (by simp)
      obtain ⟨others, hothers⟩ := ih fun other hother => h other (by simp [hother])
      refine ⟨first :: others, ?_⟩
      rw [List.mapM_cons]
      simp [hfirst, hothers]

theorem exists_left_of_forall₂ {r : α → β → Prop} {items : List α} {results : List β}
    (h : List.Forall₂ r items results) {result : β} (hresult : result ∈ results) :
    ∃ item ∈ items, r item result := by
  induction h with
  | nil => simp at hresult
  | cons hfirst _ ih =>
      rcases List.mem_cons.mp hresult with rfl | hlater
      · exact ⟨_, by simp, hfirst⟩
      · obtain ⟨item, hitem, hr⟩ := ih hlater
        exact ⟨item, by simp [hitem], hr⟩

theorem exists_right_of_forall₂ {r : α → β → Prop} {items : List α} {results : List β}
    (h : List.Forall₂ r items results) {item : α} (hitem : item ∈ items) :
    ∃ result ∈ results, r item result := by
  obtain ⟨result, hresult, hr⟩ := exists_left_of_forall₂ h.flip hitem
  exact ⟨result, hresult, hr⟩

/-- Related members that give the same, item by item. -/
theorem map_eq_map_of_forall₂ {γ : Type} {r : α → β → Prop} {f : α → γ} {g : β → γ} {items : List α} {results : List β}
    (h : List.Forall₂ r items results) (hsame : ∀ item result, r item result → g result = f item) :
    results.map g = items.map f := by
  rw [← List.forall₂_eq_eq_eq, List.forall₂_map_left_iff, List.forall₂_map_right_iff]
  exact h.flip.imp fun result item hr => hsame item result hr

theorem mem_of_mapM_eq_ok {f : α → Except ε β} {items : List α} {results : List β}
    (h : items.mapM f = .ok results) {result : β} (hresult : result ∈ results) :
    ∃ item ∈ items, f item = .ok result :=
  exists_left_of_forall₂ (mapM_eq_ok_iff.mp h) hresult

theorem ok_of_mapM_eq_ok {f : α → Except ε β} {items : List α} {results : List β}
    (h : items.mapM f = .ok results) {item : α} (hitem : item ∈ items) :
    ∃ result ∈ results, f item = .ok result :=
  exists_right_of_forall₂ (mapM_eq_ok_iff.mp h) hitem

private theorem filterAuxM_eq_ok_iff {p : α → Except ε Bool} {q : α → Bool}
    (hq : ∀ item found, p item = .ok found → found = q item) {items done kept : List α} :
    items.filterAuxM p done = .ok kept ↔
      (∀ item ∈ items, p item = .ok (q item)) ∧ kept = (items.filter q).reverse ++ done := by
  induction items generalizing done with
  | nil =>
      rw [List.filterAuxM, pure_eq_ok_iff]
      simp [eq_comm]
  | cons item rest ih =>
      simp only [List.filterAuxM, bind_eq_ok_iff, ih, List.forall_mem_cons]
      constructor
      · rintro ⟨found, hfound, hrest, rfl⟩
        obtain rfl := hq item found hfound
        refine ⟨⟨hfound, hrest⟩, ?_⟩
        cases h : q item <;> simp [h]
      · rintro ⟨⟨hitem, hrest⟩, rfl⟩
        refine ⟨q item, hitem, hrest, ?_⟩
        cases h : q item <;> simp [h]

/-- A filter whose test may fail keeps what a plain test keeps. -/
theorem filterM_eq_ok_iff {p : α → Except ε Bool} {q : α → Bool}
    (hq : ∀ item found, p item = .ok found → found = q item) {items kept : List α} :
    items.filterM p = .ok kept ↔
      (∀ item ∈ items, p item = .ok (q item)) ∧ kept = items.filter q := by
  simp only [List.filterM, bind_eq_ok_iff, filterAuxM_eq_ok_iff hq, pure_eq_ok_iff]
  constructor
  · rintro ⟨_, ⟨hitems, rfl⟩, rfl⟩
    exact ⟨hitems, by simp⟩
  · rintro ⟨hitems, rfl⟩
    exact ⟨_, ⟨hitems, rfl⟩, by simp⟩

/-- Results that are mapped one by one are mapped together. -/
theorem mapM_eq_map {γ : Type} {f : α → Except ε β} {g : α → Except ε γ} {right : β → γ}
    {items : List α} (h : ∀ item ∈ items, g item = (f item).map right) :
    items.mapM g = (items.mapM f).map (List.map right) := by
  induction items with
  | nil => rfl
  | cons item rest ih =>
      rw [List.mapM_cons, List.mapM_cons, h item (by simp),
        ih fun other hother => h other (by simp [hother])]
      cases f item with
      | error error => rfl
      | ok first => cases rest.mapM f <;> rfl

/-- What every step of a fold keeps, the fold keeps. -/
theorem of_foldlM_eq_ok {inv : β → Prop} {f : β → α → Except ε β} {items : List α} {first last : β}
    (hstep : ∀ item ∈ items, ∀ before after, inv before → f before item = .ok after → inv after)
    (hfirst : inv first) (h : items.foldlM f first = .ok last) : inv last := by
  induction items generalizing first with
  | nil =>
      rw [List.foldlM_nil, pure_eq_ok_iff] at h
      exact h ▸ hfirst
  | cons item rest ih =>
      rw [List.foldlM_cons, bind_eq_ok_iff] at h
      obtain ⟨next, hnext, hrest⟩ := h
      refine ih (fun other hother => hstep other (by simp [hother])) ?_ hrest
      exact hstep item (by simp) first next hfirst hnext

theorem filterMapM_congr {f g : α → Except ε (Option β)} {items : List α} (h : ∀ item ∈ items, f item = g item) :
    items.filterMapM f = items.filterMapM g := by
  induction items with
  | nil => rfl
  | cons item rest ih =>
      rw [List.filterMapM_cons, List.filterMapM_cons, h item List.mem_cons_self,
        ih fun other hother => h other (List.mem_cons_of_mem _ hother)]

theorem map_filterMapM_cons {γ δ : Type} {f : α → Except ε (Option γ)} {read : γ → δ} (item : α) (rest : List α) :
    ((item :: rest).filterMapM f).map (List.map read) =
      (f item).map (Option.map read) >>= fun found =>
        ((rest.filterMapM f).map (List.map read)).map fun results => found.toList ++ results := by
  rw [List.filterMapM_cons]
  cases f item with
  | error error => rfl
  | ok found =>
      cases rest.filterMapM f with
      | error error => cases found <;> simp <;> rfl
      | ok results => cases found <;> simp <;> rfl

/-- Collecting from members that give the same up to a reading gives the same up to it. -/
theorem map_filterMapM {γ δ : Type} {f : α → Except ε (Option γ)} {g : β → Except ε (Option γ)} {read : γ → δ}
    {items : List α} {others : List β}
    (h : List.Forall₂ (fun item other => (f item).map (Option.map read) = (g other).map (Option.map read))
      items others) :
    (items.filterMapM f).map (List.map read) = (others.filterMapM g).map (List.map read) := by
  induction h with
  | nil => rfl
  | cons hfirst _ ih => rw [map_filterMapM_cons, map_filterMapM_cons, hfirst, ih]

/-- What is collected from the members that have something, one after the other. -/
theorem filterMapM_eq_ok_iff {f : α → Except ε (Option β)} {items : List α} {results : List β} :
    items.filterMapM f = .ok results ↔
      ∃ found, List.Forall₂ (fun item result => f item = .ok result) items found ∧ results = found.reduceOption := by
  induction items generalizing results with
  | nil =>
      rw [List.filterMapM_nil, pure_eq_ok_iff]
      simp only [List.forall₂_nil_left_iff, exists_eq_left]
      exact eq_comm
  | cons item rest ih =>
      rw [List.filterMapM_cons, bind_eq_ok_iff]
      constructor
      · rintro ⟨found, hitem, hrest⟩
        cases found with
        | none =>
            obtain ⟨others, hothers, rfl⟩ := ih.mp hrest
            exact ⟨none :: others, .cons hitem hothers, rfl⟩
        | some result =>
            obtain ⟨later, hlater, hresults⟩ := bind_eq_ok_iff.mp hrest
            obtain ⟨others, hothers, rfl⟩ := ih.mp hlater
            obtain rfl := Except.ok.inj hresults
            exact ⟨some result :: others, .cons hitem hothers, rfl⟩
      · rintro ⟨_, hall, rfl⟩
        obtain ⟨found, others, hitem, hothers, rfl⟩ := List.forall₂_cons_left_iff.mp hall
        refine ⟨found, hitem, ?_⟩
        cases found with
        | none => exact ih.mpr ⟨others, hothers, rfl⟩
        | some result => exact bind_eq_ok_iff.mpr ⟨_, ih.mpr ⟨others, hothers, rfl⟩, rfl⟩

theorem ok_of_filterMapM {f : α → Except ε (Option β)} {items : List α} {results : List β}
    (h : items.filterMapM f = .ok results) {item : α} (hitem : item ∈ items) : ∃ found, f item = .ok found := by
  obtain ⟨found, hall, -⟩ := filterMapM_eq_ok_iff.mp h
  obtain ⟨result, -, hresult⟩ := exists_right_of_forall₂ hall hitem
  exact ⟨result, hresult⟩

theorem filterMapM_eq_nil {f : α → Except ε (Option β)} {items : List α} (h : ∀ item ∈ items, f item = .ok none) :
    items.filterMapM f = .ok [] := by
  induction items with
  | nil => rfl
  | cons item rest ih =>
      obtain ⟨hitem, hrest⟩ := List.forall_mem_cons.mp h
      rw [List.filterMapM_cons, hitem]
      exact ih hrest

theorem mem_filterMapM {f : α → Except ε (Option β)} {items : List α} {results : List β}
    (h : items.filterMapM f = .ok results) {result : β} :
    result ∈ results ↔ ∃ item ∈ items, f item = .ok (some result) := by
  obtain ⟨found, hall, rfl⟩ := filterMapM_eq_ok_iff.mp h
  rw [List.reduceOption_mem_iff]
  constructor
  · exact exists_left_of_forall₂ hall
  · rintro ⟨item, hitem, hresult⟩
    obtain ⟨other, hother, hfound⟩ := exists_right_of_forall₂ hall hitem
    obtain rfl := Except.ok.inj (hresult.symm.trans hfound)
    exact hother

/-- What is collected names the members that it comes from, in their order. -/
theorem sublist_filterMapM {f : α → Except ε (Option β)} {name : β → α} {items : List α} {results : List β}
    (h : items.filterMapM f = .ok results) (hname : ∀ item result, f item = .ok (some result) → name result = item) :
    (results.map name).Sublist items := by
  obtain ⟨found, hall, rfl⟩ := filterMapM_eq_ok_iff.mp h
  induction hall with
  | nil => exact List.Sublist.slnil
  | @cons item result _ _ hitem hrest ih =>
      have hlater := ih (filterMapM_eq_ok_iff.mpr ⟨_, hrest, rfl⟩)
      cases result with
      | none => exact hlater.cons _
      | some result =>
          rw [List.reduceOption_cons_of_some, List.map_cons, hname item result hitem]
          exact hlater.cons_cons _

theorem filterMapM_eq_error {f : α → Except ε (Option β)} {items : List α} {error : ε}
    (h : items.filterMapM f = .error error) : ∃ item ∈ items, f item = .error error := by
  induction items with
  | nil => cases h
  | cons item rest ih =>
      rw [List.filterMapM_cons] at h
      rcases bind_eq_error_iff.mp h with hitem | ⟨found, -, hrest⟩
      · exact ⟨item, List.mem_cons_self, hitem⟩
      · have hlater : rest.filterMapM f = .error error := by
          cases found with
          | none => exact hrest
          | some result => exact (bind_eq_error_iff.mp hrest).resolve_right nofun
        obtain ⟨other, hother, herror⟩ := ih hlater
        exact ⟨other, List.mem_cons_of_mem _ hother, herror⟩

end DocCompiler.Result
