import Mathlib.Logic.Relation
import DocCompiler.Proofs.Build.Gain

/-!
Every annotation is accounted for in the document that is built: it has added one thing, or it has
reported one error and changed nothing.
-/

namespace DocCompiler.Build

open Annotation

/-- An annotation folded into a document, with the contexts before and after. -/
structure Fold where
  placed : Placed
  before : Context
  after : Context
  folds : guarded placed.step before = .ok after

/-- Folds that follow on each other from one context to another. -/
inductive Folds : Context → List Fold → Context → Prop
  | nil (context : Context) : Folds context [] context
  | cons {fold : Fold} {rest : List Fold} {last : Context} (h : Folds fold.after rest last) :
      Folds fold.before (fold :: rest) last

/-- What is held in a context is claimed in it. -/
structure Context.Tracked (context : Context) : Prop where
  unfrozen : context.model.frozen = false
  claimed : ∀ kind, ∀ entry ∈ context.model.holdings kind,
    ∃ origin ∈ context.origins, origin.1 = entry.1

namespace Fold

variable (fold : Fold)

/-- The errors that are reported of an annotation. -/
def errors : List Diagnostic :=
  (fold.after.diagnostics.drop fold.before.diagnostics.length).filter (·.severity == .error)

/-- What comes of an annotation. -/
inductive Outcome : Prop
  /-- It adds one thing, under a claim that nobody laid before. -/
  | declared {kind : EntryKind} {key : Claim} {part : Part} (hkind : fold.placed.kind? = some kind)
      (hclaim : fold.placed.claim? = some key) (herrors : fold.errors = [])
      (hgains : fold.before.model.Gains fold.after.model kind key part)
  /-- It adds a property to a schema. -/
  | extended (hproperty : fold.placed.isProperty = true) (herrors : fold.errors = [])
      (hgains : fold.before.model.GainsProperty fold.after.model)
  /-- It is refused with one error. -/
  | refused (herrors : fold.errors.length = 1) (hmodel : fold.after.model = fold.before.model)
  /-- It is about the document as a whole, or about nothing. -/
  | aside (hkind : fold.placed.kind? = none) (hproperty : fold.placed.isProperty = false)
      (hmodel : ∃ info, fold.after.model = { fold.before.model with info })

end Fold

theorem Placed.kind?_of_isProperty {placed : Placed} (h : placed.isProperty = true) :
    placed.kind? = none := by
  rw [kind?, Datum.isText_iff.mp h]
  rfl

theorem Placed.step_of_isProperty {placed : Placed} (h : placed.isProperty = true) :
    placed.step = fieldProperty placed.unit placed.symbol placed.node :=
  if_pos h

theorem Placed.step_of_not_isProperty {placed : Placed} (h : placed.isProperty = false) :
    placed.step = declare placed :=
  if_neg (by simp [h])

namespace Context.Tracked

variable {context after : Context}

theorem vacant (h : context.Tracked) {key : Claim}
    (hunclaimed : ∀ entry ∈ context.origins, entry.1.same key = false) (kind : EntryKind) :
    context.model.Vacant kind key := by
  intro entry hentry
  obtain ⟨origin, horigin, hkey⟩ := h.claimed kind entry hentry
  rw [← hkey]
  exact hunclaimed origin horigin

/-- What holds nothing else stays tracked. -/
theorem of_holdings (h : context.Tracked) (hfrozen : after.model.frozen = context.model.frozen)
    (horigins : context.origins <+: after.origins)
    (hkeys : ∀ kind, ∀ entry ∈ after.model.holdings kind,
      ∃ held ∈ context.model.holdings kind, held.1 = entry.1) : after.Tracked := by
  refine ⟨hfrozen.trans h.unfrozen, fun kind entry hentry => ?_⟩
  obtain ⟨held, hheld, hkey⟩ := hkeys kind entry hentry
  obtain ⟨origin, horigin, hclaim⟩ := h.claimed kind held hheld
  exact ⟨origin, horigins.subset horigin, hclaim.trans hkey⟩

end Context.Tracked

namespace Fold

variable {fold : Fold}

/-- What folding an annotation does to a context. -/
theorem inversion (fold : Fold) :
    (∃ kind key, fold.placed.kind? = some kind ∧ fold.placed.claim? = some key ∧
        fold.before.Declares kind key fold.after) ∨
      (fold.placed.isProperty = true ∧ fold.before.Extends fold.after) ∨
      (∃ fault : Fault, ∃ between, fold.before.Noted between ∧
        fold.after = between.warn [fault.diagnostic]) ∨
      (fold.placed.kind? = none ∧ fold.placed.isProperty = false ∧ fold.before.Aside fold.after) := by
  obtain ⟨placed, before, after, hfolds⟩ := fold
  dsimp only
  have hspared {fault : Fault} {between : Context} (htag : placed.node.tag ≠ .text "Info")
      (hends : Ends placed.step before (.error fault) between) : before.Noted between :=
    Placed.spares_step htag before fault between (.refl before) hends
  cases hproperty : placed.isProperty with
  | true =>
      rcases guarded_eq_ok_iff.mp hfolds with hyields | ⟨fault, between, hends, hafter⟩
      · rw [Placed.step_of_isProperty hproperty] at hyields
        exact .inr (.inl ⟨rfl, extends_fieldProperty hyields⟩)
      · have htag : placed.node.tag ≠ .text "Info" := by
          rw [Datum.isText_iff.mp hproperty]
          simp
        exact .inr (.inr (.inl ⟨fault, between, hspared htag hends, hafter⟩))
  | false =>
      cases hkind : placed.kind? with
      | none =>
          rw [Placed.step_of_not_isProperty hproperty] at hfolds
          have haside : before.Aside after := (Placed.keeps_aside hkind).of_guarded
            (fun _ _ h => ⟨h.model, h.origins⟩) ⟨⟨before.model.info, rfl⟩, List.prefix_rfl⟩ hfolds
          exact .inr (.inr (.inr ⟨rfl, rfl, haside⟩))
      | some kind =>
          rcases guarded_eq_ok_iff.mp hfolds with hyields | ⟨fault, between, hends, hafter⟩
          · rw [Placed.step_of_not_isProperty hproperty] at hyields
            obtain ⟨key, hclaim, hdeclares⟩ := Placed.declares_of_yields hkind hyields
            exact .inl ⟨kind, key, rfl, hclaim, hdeclares⟩
          · have htag : placed.node.tag ≠ .text "Info" := by
              intro htag
              rw [Placed.kind?, htag] at hkind
              cases hkind
            exact .inr (.inr (.inl ⟨fault, between, hspared htag hends, hafter⟩))

theorem errors_eq_nil
    (h : ∃ warnings, OnlyWarnings warnings ∧
      fold.after.diagnostics = fold.before.diagnostics ++ warnings) : fold.errors = [] := by
  obtain ⟨warnings, hwarnings, hdiagnostics⟩ := h
  rw [errors, hdiagnostics, List.drop_left, List.filter_eq_nil_iff]
  exact fun diagnostic hdiagnostic => by simpa using hwarnings diagnostic hdiagnostic

theorem errors_of_fault {fault : Fault} {between : Context} (hnoted : fold.before.Noted between)
    (hafter : fold.after = between.warn [fault.diagnostic]) : fold.errors = [fault.diagnostic] := by
  obtain ⟨warnings, hwarnings, hdiagnostics⟩ := hnoted.diagnostics
  have hnone : warnings.filter (·.severity == .error) = [] := by
    rw [List.filter_eq_nil_iff]
    exact fun diagnostic hdiagnostic => by simpa using hwarnings diagnostic hdiagnostic
  rw [errors, hafter, Context.warn, hdiagnostics, List.append_assoc, List.drop_left,
    List.filter_append, hnone]
  rfl

theorem origins (fold : Fold) : fold.before.origins <+: fold.after.origins := by
  rcases fold.inversion with ⟨kind, key, -, -, hdeclares⟩ | ⟨-, hextends⟩ |
    ⟨fault, between, hnoted, hafter⟩ | ⟨-, -, haside⟩
  · obtain ⟨place, horigins⟩ := hdeclares.origins
    exact horigins ▸ List.prefix_append _ _
  · exact hextends.origins ▸ List.prefix_rfl
  · exact hafter ▸ hnoted.origins
  · exact haside.origins

/-- What an annotation claims without an error was free before and is taken afterwards. -/
theorem claims {key : Claim} (hclaim : fold.placed.claim? = some key) (herrors : fold.errors = []) :
    (∀ entry ∈ fold.before.origins, entry.1.same key = false) ∧
      ∃ entry ∈ fold.after.origins, entry.1 = key := by
  have hcounted (hkind : fold.placed.kind? = none) : False := by
    rw [Placed.claim?, hkind] at hclaim
    cases hclaim
  rcases fold.inversion with ⟨kind, other, -, hother, hdeclares⟩ | ⟨hproperty, -⟩ |
    ⟨fault, between, hnoted, hafter⟩ | ⟨hkind, -, -⟩
  · obtain rfl : other = key := Option.some.inj (hother.symm.trans hclaim)
    obtain ⟨place, horigins⟩ := hdeclares.origins
    exact ⟨hdeclares.unclaimed, (other, place), by simp [horigins], rfl⟩
  · exact (hcounted (Placed.kind?_of_isProperty hproperty)).elim
  · rw [errors_of_fault hnoted hafter] at herrors
    cases herrors
  · exact (hcounted hkind).elim

/-- An annotation adds what it is counted as, or is refused with one error. -/
theorem outcome (h : fold.before.Tracked) : fold.Outcome := by
  rcases fold.inversion with ⟨kind, key, hkind, hclaim, hdeclares⟩ | ⟨hproperty, hextends⟩ |
    ⟨fault, between, hnoted, hafter⟩ | ⟨hkind, hproperty, haside⟩
  · obtain ⟨part, hgains⟩ := hdeclares.model h.unfrozen (h.vacant hdeclares.unclaimed kind)
    exact .declared hkind hclaim (errors_eq_nil hdeclares.diagnostics) hgains
  · exact .extended hproperty (errors_eq_nil hextends.diagnostics) (hextends.model h.unfrozen)
  · refine .refused ?_ ?_
    · rw [errors_of_fault hnoted hafter, List.length_singleton]
    · rw [hafter, Context.warn_model, hnoted.model]
  · exact .aside hkind hproperty haside.model

theorem tracked (h : fold.before.Tracked) : fold.after.Tracked := by
  cases fold.outcome h with
  | @declared kind key part _ hclaim herrors hgains =>
      refine ⟨hgains.frozen.trans h.unfrozen, fun other entry hentry => ?_⟩
      have hheld : entry ∈ fold.before.model.holdings other ∨ entry = (key, part) := by
        by_cases hother : other = kind
        · subst hother
          exact (List.mem_cons.mp (hgains.gained.mem_iff.mp hentry)).symm
        · exact .inl (hgains.others other hother ▸ hentry)
      rcases hheld with hheld | rfl
      · obtain ⟨origin, horigin, hkey⟩ := h.claimed other entry hheld
        exact ⟨origin, fold.origins.subset horigin, hkey⟩
      · exact (fold.claims hclaim herrors).2
  | extended _ _ hgains =>
      refine h.of_holdings hgains.frozen fold.origins fun kind entry hentry => ?_
      obtain ⟨held, hheld, hkey, -⟩ := Result.exists_left_of_forall₂ (hgains.holdings kind) hentry
      exact ⟨held, hheld, hkey.symm⟩
  | refused _ hmodel =>
      refine h.of_holdings (congrArg _ hmodel) fold.origins fun kind entry hentry => ?_
      exact ⟨entry, hmodel ▸ hentry, rfl⟩
  | aside _ _ hmodel =>
      obtain ⟨info, hmodel⟩ := hmodel
      refine h.of_holdings (congrArg (·.frozen) hmodel) fold.origins fun kind entry hentry => ?_
      rw [hmodel, Model.holdings_withInfo] at hentry
      exact ⟨entry, hentry, rfl⟩

end Fold

/-- A later form of a part of a kind: a schema may have gained properties. -/
def Grown (kind : EntryKind) : Part → Part → Prop :=
  Relation.ReflTransGen fun part later => kind = .component .schemas ∧ part.GainsProperty later

/-- Whether an annotation is of a kind and nothing is wrong with it. -/
def Fold.adds (kind : EntryKind) (fold : Fold) : Bool :=
  fold.placed.kind? == some kind && fold.errors.isEmpty

theorem Fold.adds_iff {kind : EntryKind} {fold : Fold} :
    fold.adds kind = true ↔ fold.placed.kind? = some kind ∧ fold.errors = [] := by
  simp [adds]

namespace Fold.Outcome

variable {fold : Fold} (h : fold.Outcome)

include h

theorem length_holdings (kind : EntryKind) :
    (fold.after.model.holdings kind).length =
      (fold.before.model.holdings kind).length + if fold.adds kind then 1 else 0 := by
  cases h with
  | @declared found key part hkind _ herrors hgains =>
      by_cases hfound : kind = found
      · subst hfound
        rw [hgains.gained.length_eq, List.length_cons, if_pos (adds_iff.mpr ⟨hkind, herrors⟩)]
      · have hadds : ¬ fold.adds kind = true := by
          rw [adds_iff, hkind, Option.some.injEq]
          exact fun hadds => hfound hadds.1.symm
        rw [hgains.others kind hfound, if_neg hadds, Nat.add_zero]
  | extended hproperty _ hgains =>
      have hadds : ¬ fold.adds kind = true := by
        simp [adds_iff, Placed.kind?_of_isProperty hproperty]
      rw [← (hgains.holdings kind).length_eq, if_neg hadds, Nat.add_zero]
  | refused herrors hmodel =>
      have hadds : ¬ fold.adds kind = true := by
        rw [adds_iff]
        rintro ⟨-, hnone⟩
        simp [hnone] at herrors
      rw [hmodel, if_neg hadds, Nat.add_zero]
  | aside hkind _ hmodel =>
      obtain ⟨info, hmodel⟩ := hmodel
      have hadds : ¬ fold.adds kind = true := by
        simp [adds_iff, hkind]
      rw [hmodel, Model.holdings_withInfo, if_neg hadds, Nat.add_zero]

theorem propertyCount (hproperty : fold.placed.isProperty = true) :
    fold.after.model.propertyCount =
      fold.before.model.propertyCount + if fold.errors.isEmpty then 1 else 0 := by
  cases h with
  | declared hkind => simp [Placed.kind?_of_isProperty hproperty] at hkind
  | extended _ herrors hgains => rw [hgains.propertyCount, herrors, List.isEmpty_nil, if_pos rfl]
  | refused herrors hmodel =>
      have hsome : ¬ fold.errors.isEmpty = true := by
        rw [List.isEmpty_iff]
        intro hnone
        simp [hnone] at herrors
      rw [hmodel, if_neg hsome, Nat.add_zero]
  | aside _ hother => simp [hproperty] at hother

/-- Nothing that is held is replaced. -/
theorem kept (kind : EntryKind) {entry : Claim × Part} (hentry : entry ∈ fold.before.model.holdings kind) :
    ∃ part, (entry.1, part) ∈ fold.after.model.holdings kind ∧ Grown kind entry.2 part := by
  cases h with
  | @declared found key part _ _ _ hgains =>
      refine ⟨entry.2, ?_, .refl⟩
      by_cases hfound : kind = found
      · subst hfound
        exact hgains.gained.mem_iff.mpr (List.mem_cons_of_mem _ hentry)
      · rwa [hgains.others kind hfound]
  | extended _ _ hgains =>
      obtain ⟨⟨key, later⟩, hlater, rfl, hsame | hgrows⟩ :=
        Result.exists_right_of_forall₂ (hgains.holdings kind) hentry
      · exact ⟨later, hlater, hsame ▸ .refl⟩
      · exact ⟨later, hlater, .single hgrows⟩
  | refused _ hmodel => exact ⟨entry.2, hmodel ▸ hentry, .refl⟩
  | aside _ _ hmodel =>
      obtain ⟨info, hmodel⟩ := hmodel
      refine ⟨entry.2, ?_, .refl⟩
      rwa [hmodel, Model.holdings_withInfo]

/-- A claim comes with an annotation that is counted, so that it is admitted or refused. -/
theorem errors {key : Claim} (hclaim : fold.placed.claim? = some key) :
    fold.errors = [] ∨ fold.errors.length = 1 := by
  cases h with
  | declared _ _ herrors => exact .inl herrors
  | extended _ herrors => exact .inl herrors
  | refused herrors => exact .inr herrors
  | aside hkind =>
      rw [Placed.claim?, hkind] at hclaim
      cases hclaim

end Fold.Outcome

namespace Folds

variable {start last : Context} {folds : List Fold}

/-- Annotations can be folded one by one. -/
theorem exists_of_foldlM {foldIn : Context → Placed → Except ShapeError Context}
    {nodes : List Placed}
    (hfold : ∀ placed ∈ nodes, ∀ context, foldIn context placed = guarded placed.step context)
    (h : nodes.foldlM foldIn start = .ok last) :
    ∃ folds, Folds start folds last ∧ folds.map (·.placed) = nodes := by
  induction nodes generalizing start with
  | nil =>
      obtain rfl := Result.pure_eq_ok_iff.mp h
      exact ⟨[], .nil start, rfl⟩
  | cons placed rest ih =>
      rw [List.foldlM_cons] at h
      obtain ⟨between, hfirst, hrest⟩ := Result.bind_eq_ok_iff.mp h
      rw [hfold placed (by simp)] at hfirst
      obtain ⟨folds, hfolds, hnodes⟩ := ih (fun other hother => hfold other (by simp [hother])) hrest
      let fold : Fold := ⟨placed, start, between, hfirst⟩
      exact ⟨fold :: folds, @cons fold folds last hfolds, by rw [List.map_cons, hnodes]⟩

theorem tracked (h : Folds start folds last) (hstart : start.Tracked) :
    last.Tracked ∧ ∀ fold ∈ folds, fold.before.Tracked := by
  induction h with
  | nil => exact ⟨hstart, by simp⟩
  | cons _ ih =>
      obtain ⟨hlast, hfolds⟩ := ih (Fold.tracked hstart)
      exact ⟨hlast, List.forall_mem_cons.mpr ⟨hstart, hfolds⟩⟩

/-- What is claimed once is claimed in all contexts that follow. -/
theorem origins (h : Folds start folds last) : ∀ fold ∈ folds, start.origins <+: fold.before.origins := by
  induction h with
  | nil => simp
  | @cons first _ _ _ ih =>
      exact List.forall_mem_cons.mpr ⟨List.prefix_rfl, fun fold hfold =>
        first.origins.trans (ih fold hfold)⟩

theorem length_holdings (h : Folds start folds last) (houtcomes : ∀ fold ∈ folds, fold.Outcome)
    (kind : EntryKind) :
    (last.model.holdings kind).length =
      (start.model.holdings kind).length + folds.countP (·.adds kind) := by
  induction h with
  | nil => simp
  | @cons first rest last _ ih =>
      rw [List.forall_mem_cons] at houtcomes
      have hstep : (first.after.model.holdings kind).length =
          (first.before.model.holdings kind).length + if first.adds kind then 1 else 0 :=
        houtcomes.1.length_holdings kind
      rw [ih houtcomes.2, hstep, List.countP_cons]
      omega

theorem propertyCount (h : Folds start folds last) (houtcomes : ∀ fold ∈ folds, fold.Outcome)
    (hproperties : ∀ fold ∈ folds, fold.placed.isProperty = true) :
    last.model.propertyCount = start.model.propertyCount + folds.countP (·.errors.isEmpty) := by
  induction h with
  | nil => simp
  | @cons first rest last _ ih =>
      rw [List.forall_mem_cons] at houtcomes hproperties
      have hstep : first.after.model.propertyCount =
          first.before.model.propertyCount + if first.errors.isEmpty then 1 else 0 :=
        houtcomes.1.propertyCount hproperties.1
      rw [ih houtcomes.2 hproperties.2, hstep, List.countP_cons]
      omega

/-- What is held once is held in the end, if grown. -/
theorem kept (h : Folds start folds last) (houtcomes : ∀ fold ∈ folds, fold.Outcome) (kind : EntryKind)
    {entry : Claim × Part} (hentry : entry ∈ start.model.holdings kind) :
    ∃ part, (entry.1, part) ∈ last.model.holdings kind ∧ Grown kind entry.2 part := by
  induction h generalizing entry with
  | nil => exact ⟨entry.2, hentry, .refl⟩
  | @cons first rest last _ ih =>
      rw [List.forall_mem_cons] at houtcomes
      obtain ⟨between, hbetween, hgrown⟩ := houtcomes.1.kept kind hentry
      obtain ⟨part, hpart, hlater⟩ := ih houtcomes.2 hbetween
      exact ⟨part, hpart, hgrown.trans hlater⟩

/-- What an annotation leaves behind is held in the end, if grown. -/
theorem kept_of_mem (h : Folds start folds last) (houtcomes : ∀ fold ∈ folds, fold.Outcome) {fold : Fold}
    (hfold : fold ∈ folds) (kind : EntryKind) {entry : Claim × Part}
    (hentry : entry ∈ fold.after.model.holdings kind) :
    ∃ part, (entry.1, part) ∈ last.model.holdings kind ∧ Grown kind entry.2 part := by
  induction h with
  | nil => simp at hfold
  | cons hrest ih =>
      rw [List.forall_mem_cons] at houtcomes
      rcases List.mem_cons.mp hfold with rfl | hlater
      · exact hrest.kept houtcomes.2 kind hentry
      · exact ih houtcomes.2 hlater

/-- Of annotations with one claim, none is admitted after one that was. -/
theorem pairwise_claims (h : Folds start folds last) (hstart : start.Tracked) :
    folds.Pairwise fun fold later => ∀ key other, fold.placed.claim? = some key →
      later.placed.claim? = some other → key.same other = true → fold.errors = [] →
        later.errors.length = 1 := by
  induction h with
  | nil => exact .nil
  | @cons first rest last hrest ih =>
      have hafter := Fold.tracked hstart
      refine .cons (fun later hlater key other hkey hother hsame herrors => ?_) (ih hafter)
      obtain ⟨-, entry, hentry, rfl⟩ := first.claims hkey herrors
      have htaken : entry ∈ later.before.origins := (hrest.origins later hlater).subset hentry
      have htracked : later.before.Tracked := (hrest.tracked hafter).2 later hlater
      rcases (Fold.outcome htracked).errors hother with hnone | hone
      · have hfree := (later.claims hother hnone).1 entry htaken
        exact absurd hsame (by simp [hfree])
      · exact hone

end Folds

/-- How a document accounts for the annotations that were folded into it, first declarations and then the
properties of fields. -/
structure Accounts (declared : List Fold) (between : Context) (properties : List Fold)
    (context : Context) : Prop where
  /-- Each annotation adds one thing, or it is refused with one error. -/
  outcomes : ∀ fold ∈ declared ++ properties, fold.Outcome
  /-- As much is held of a kind as annotations of it were admitted. -/
  held : ∀ kind, (context.model.holdings kind).length = declared.countP (·.adds kind)
  /-- As many properties are added to schemas as properties of fields were admitted. -/
  added : context.model.propertyCount =
    between.model.propertyCount + properties.countP (·.errors.isEmpty)
  /-- What an annotation leaves in the document stays there. -/
  kept : ∀ fold ∈ declared ++ properties, ∀ kind, ∀ entry ∈ fold.after.model.holdings kind,
    ∃ part, (entry.1, part) ∈ context.model.holdings kind ∧ Grown kind entry.2 part
  /-- The first annotation with a claim that is admitted shuts out all that come later. -/
  first : declared.Pairwise fun fold later => ∀ key other, fold.placed.claim? = some key →
    later.placed.claim? = some other → key.same other = true → fold.errors = [] →
      later.errors.length = 1

/-- Building starts with a model that holds nothing. -/
theorem Context.tracked_default : Context.Tracked {} where
  unfrozen := rfl
  claimed kind entry hentry := by
    rw [Model.holdings_default] at hentry
    cases hentry

theorem Folds.append {start between last : Context} {first second : List Fold}
    (h : Folds start first between) (hsecond : Folds between second last) :
    Folds start (first ++ second) last := by
  induction h with
  | nil => exact hsecond
  | cons _ ih => exact .cons (ih hsecond)

/-- Every annotation of a document that was built is accounted for. -/
theorem build_accounts {units : List AnnotatedUnit} {context : Context} (h : build units = .ok context) :
    ∃ declared between properties,
      (Folds {} declared between ∧
        declared.map (·.placed) = (placedNodes units).filter (!·.isProperty)) ∧
      (Folds between properties context ∧
        properties.map (·.placed) = (placedNodes units).filter (·.isProperty)) ∧
      Accounts declared between properties context := by
  obtain ⟨between, hdeclared, hproperties⟩ := Result.bind_eq_ok_iff.mp h
  obtain ⟨declared, hfirst, hdeclaredNodes⟩ := Folds.exists_of_foldlM (fun placed hplaced _ => by
    have hother : placed.isProperty = false := by simpa using (List.mem_filter.mp hplaced).2
    rw [fold, Placed.step_of_not_isProperty hother]) hdeclared
  obtain ⟨properties, hsecond, hpropertyNodes⟩ := Folds.exists_of_foldlM (fun placed hplaced _ => by
    rw [foldProperty, Placed.step_of_isProperty (List.mem_filter.mp hplaced).2]) hproperties
  refine ⟨declared, between, properties, ⟨hfirst, hdeclaredNodes⟩, ⟨hsecond, hpropertyNodes⟩, ?_⟩
  have hall : Folds {} (declared ++ properties) context := hfirst.append hsecond
  have hstart : Context.Tracked {} := Context.tracked_default
  have houtcomes : ∀ fold ∈ declared ++ properties, fold.Outcome :=
    fun fold hfold => Fold.outcome ((hall.tracked hstart).2 fold hfold)
  have hkinds : ∀ fold ∈ properties, fold.placed.isProperty = true := by
    intro fold hfold
    have hplaced : fold.placed ∈ properties.map (·.placed) := List.mem_map_of_mem hfold
    exact (List.mem_filter.mp (hpropertyNodes ▸ hplaced)).2
  exact
    { outcomes := houtcomes
      held := fun kind => by
        have hnone : properties.countP (·.adds kind) = 0 := by
          rw [List.countP_eq_zero]
          intro fold hfold
          simp [Fold.adds_iff, Placed.kind?_of_isProperty (hkinds fold hfold)]
        rw [hall.length_holdings houtcomes kind, List.countP_append, hnone, Model.holdings_default]
        simp
      added := hsecond.propertyCount (fun fold hfold => houtcomes fold (by simp [hfold])) hkinds
      kept := fun fold hfold kind entry hentry => hall.kept_of_mem houtcomes hfold kind hentry
      first := hfirst.pairwise_claims hstart }

/-- The same server twice, and a property of a schema: one server is held, and one property is added. -/
theorem build_accounts_twice :
    let server : Node := ⟨.text "Server", [(.text "url", .string "/")], [], 1, 1⟩
    let type : Symbol := { kind := .type, name := .text "Pet", qualifiedName := .text "Pet" }
    let field : Symbol :=
      { kind := .field, name := .text "name", qualifiedName := .text "Pet.name", parent := .text "Pet" }
    let unit : AnnotatedUnit :=
      { identity := "pet.php", fingerprint := ""
        blocks := [⟨.ofFile "pet.php", [server, server]⟩, ⟨field, [⟨.text "Property", [], [], 3, 1⟩]⟩,
          ⟨type, [⟨.text "Schema", [], [], 2, 1⟩]⟩] }
    ∃ context, build [unit] = .ok context ∧
      ((context.model.holdings .server).length = 1 ∧ context.model.propertyCount = 1) ∧
      ∃ declared between properties,
        (Folds {} declared between ∧
          declared.map (·.placed) = (placedNodes [unit]).filter (!·.isProperty)) ∧
        (Folds between properties context ∧
          properties.map (·.placed) = (placedNodes [unit]).filter (·.isProperty)) ∧
        Accounts declared between properties context := by
  intro server type field unit
  have hbuild : ∃ context, build [unit] = .ok context ∧
      (context.model.holdings .server).length = 1 ∧ context.model.propertyCount = 1 := by
    simp only [build, placedNodes, List.mergeSort_singleton]
    exact ⟨_, rfl, rfl, rfl⟩
  obtain ⟨context, hbuild, hcounts⟩ := hbuild
  exact ⟨context, hbuild, hcounts, build_accounts hbuild⟩

end DocCompiler.Build
