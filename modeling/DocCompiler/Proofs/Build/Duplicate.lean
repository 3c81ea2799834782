import DocCompiler.Proofs.Build.Account
import DocCompiler.Proofs.Document.RouteSpelling

/-!
Operations that are declared twice. Whatever spellings their paths have, the second of two operations
with one route and one method is refused, and if nothing else is wrong with it, because of the first.
-/

namespace DocCompiler.Build

open Annotation

/-- How a step ends is fixed by the context. -/
theorem Ends.unique {α : Type} {step : Step α} {context after other : Context} {result found : Except Fault α}
    (h : Ends step context result after) (hother : Ends step context found other) :
    result = found ∧ after = other := by
  unfold Ends at h hother
  simpa using h.symm.trans hother

/-- A step with nothing wrong in it but what it claims: where the claim is free it is laid, and where it
is taken that is all that is wrong. -/
structure Claims (view : View) (key : Claim) (step : Step Unit) : Prop where
  free : ∀ context, (∀ entry ∈ context.origins, entry.1.same key = false) →
    ∃ after, Yields step context () after ∧ after.origins = context.origins ++ [(key, view.place)]
  taken : ∀ context entry, context.origins.find? (·.1.same key) = some entry →
    ∃ after, Ends step context (.error ⟨.redeclared key entry.2, view.place⟩) after

namespace Claims

variable {α : Type} {view : View} {key : Claim} {context between : Context} {value : α}
  {next : α → Step Unit}

/-- What only reads does not hang on the claims that were laid. -/
theorem of_reads_bind {step : Step α} (hstep : Reads step) (hyields : Yields step context value between)
    (h : Claims view key (next value)) : Claims view key (step >>= next) := by
  obtain ⟨warnings, -, hends⟩ := hstep.transfer (yields_iff_ends.mp hyields)
  refine ⟨fun other hfree => ?_, fun other entry hentry => ?_⟩
  · obtain ⟨after, hafter, horigins⟩ := h.free (other.warn warnings) hfree
    exact ⟨after, yields_bind_iff.mpr ⟨value, _, yields_iff_ends.mpr (hends other), hafter⟩, horigins⟩
  · obtain ⟨after, hafter⟩ := h.taken (other.warn warnings) entry hentry
    exact ⟨after, ends_bind_iff.mpr (.inl ⟨value, _, yields_iff_ends.mpr (hends other), hafter⟩)⟩

theorem look_bind {found : Except Stop α} (hfound : found = .ok value) (h : Claims view key (next value)) :
    Claims view key (look found >>= next) := by
  have hyields : Yields (look found) {} value {} := yields_look_iff.mpr ⟨hfound, rfl⟩
  exact of_reads_bind (Reads.look found) hyields h

theorem ite_neg {p : Prop} [Decidable p] {step other : Step Unit} (hp : ¬ p) (h : Claims view key other) :
    Claims view key (if p then step else other) := by
  rwa [if_neg hp]

/-- What is claimed last, and then put into the model. -/
theorem claim_alter (view : View) (key : Claim) (change : Model → Model × Option ModelError) :
    Claims view key (claim view key >>= fun _ => alter change) where
  free context hfree := by
    refine ⟨_, yields_bind_iff.mpr ⟨(), _, yields_claim_iff.mpr ⟨hfree, rfl⟩, yields_alter_iff.mpr rfl⟩, rfl⟩
  taken context entry hentry := by
    refine ⟨context, ends_bind_iff.mpr (.inr ⟨_, rfl, ?_⟩)⟩
    unfold Build.claim
    rw [ends_get_bind_iff, hentry]
    exact ends_refuse_iff.mpr ⟨rfl, rfl⟩

end Claims

/-- An operation that could be declared once could be declared wherever its route is free. -/
theorem claims_operation {unit : String} {symbol : Symbol} {node : Node} {path : String}
    (hpath : (View.of unit node).text "path" = .ok (.text path)) {before after : Context}
    (h : Yields (operation unit symbol node) before () after) :
    Claims (View.of unit node) (.operation (Route.normalize path) (Text.lower (View.of unit node).tag))
      (operation unit symbol node) := by
  simp only [operation, yields_bind_iff, yields_required_iff, yields_look_iff, yields_ite_iff,
    not_yields_refuse, and_assoc, exists_and_left, exists_eq_left, exists_const, false_and, and_false,
    false_or] at h
  obtain ⟨view, _, hview, hmethod, given, hgiven, hnull, operationId, hoperationId, tags, htags, summary,
    hsummary, description, hdescription, deprecated, hdeprecated, security, hsecurity, nodes, hnodes,
    parameters, _, hparameters, bodies, hbodies, hbody, body, _, hyields, answers, hanswers, responses, _,
    hresponses, _, hchildren, -⟩ := h
  obtain ⟨rfl, -⟩ := yields_enter_iff.mp hview
  obtain rfl : Datum.text path = given := Except.ok.inj (hpath.symm.trans hgiven)
  refine .of_reads_bind (Reads.enter unit node) hview (.ite_neg hmethod ?_)
  have hrequired : Yields (required (View.of unit node) "path") {} (.text path) {} :=
    yields_required_iff.mpr ⟨hgiven, hnull, rfl⟩
  refine .of_reads_bind (reads_required _ _) hrequired ?_
  refine .look_bind hoperationId (.look_bind htags (.look_bind hsummary (.look_bind hdescription
    (.look_bind hdeprecated (.look_bind hsecurity (.look_bind hnodes ?_))))))
  refine .of_reads_bind (.mapM fun child _ => (Reads.enter unit child).bind (reads_parameter unit))
    hparameters (.look_bind hbodies (.ite_neg hbody ?_))
  refine .of_reads_bind (.optionMapM fun child _ => (Reads.enter unit child).bind (reads_requestBody unit))
    hyields (.look_bind hanswers ?_)
  exact .of_reads_bind (reads_statusResponses _ _ _ _) hresponses (.look_bind hchildren (.claim_alter _ _ _))

/-- An annotation declares an operation with a method, on a path that spells a route. -/
structure Placed.OperatesOn (placed : Placed) (segments : List Route.Segment) (method : String) : Prop where
  tag : ∃ tag ∈ methodTags, placed.node.tag = .text tag ∧ Text.lower tag = method
  path : ∃ path, (View.of placed.unit placed.node).text "path" = .ok (.text path) ∧
    Route.Spelled segments path.toList

/-- What is claimed by an operation on a route. -/
def operationClaim (segments : List Route.Segment) (method : String) : Claim :=
  .operation (String.ofList (Route.canonicalPath segments)) method

namespace Placed.OperatesOn

variable {placed : Placed} {segments : List Route.Segment} {method : String}
  (h : placed.OperatesOn segments method)

include h

theorem kind? : placed.kind? = some .operation := by
  obtain ⟨tag, hmethod, htag, -⟩ := h.tag
  rw [Placed.kind?, htag]
  exact kindOf?_of_methodTags hmethod

/-- Whatever the spelling, the path that is claimed is that of the route. -/
theorem exists_path : ∃ path, (View.of placed.unit placed.node).text "path" = .ok (.text path) ∧
    Claim.operation (Route.normalize path) (Text.lower (View.of placed.unit placed.node).tag) =
      operationClaim segments method := by
  obtain ⟨tag, -, htag, rfl⟩ := h.tag
  obtain ⟨path, hpath, hspelled⟩ := h.path
  have hname : (View.of placed.unit placed.node).tag = tag := by
    rw [View.tag, View.of, htag]
    rfl
  exact ⟨path, hpath, by rw [hname, Route.normalize, hspelled.normalizeChars_eq, operationClaim]⟩

theorem claim? : placed.claim? = some (operationClaim segments method) := by
  obtain ⟨path, hpath, hkey⟩ := h.exists_path
  simp only [Placed.claim?, h.kind?, hpath, ← hkey]
  rfl

theorem step_eq : placed.step = operation placed.unit placed.symbol placed.node := by
  obtain ⟨tag, hmethod, htag, -⟩ := h.tag
  have hhandler : ∀ tag ∈ methodTags, tag ≠ "Property" ∧ handler? tag = some operation := by
    simp only [methodTags, List.forall_mem_cons]
    exact ⟨⟨by decide, rfl⟩, ⟨by decide, rfl⟩, ⟨by decide, rfl⟩, ⟨by decide, rfl⟩, ⟨by decide, rfl⟩,
      ⟨by decide, rfl⟩, ⟨by decide, rfl⟩, ⟨by decide, rfl⟩, nofun⟩
  obtain ⟨hother, hfound⟩ := hhandler tag hmethod
  have hproperty : placed.isProperty = false := by
    simp [Placed.isProperty, htag, Datum.isText, Datum.text?, hother]
  rw [Placed.step_of_not_isProperty hproperty, declare, htag, Datum.text?, Option.bind_some, hfound]
  rfl

/-- An operation that could be declared once claims its route and method, and nothing else can be wrong
with it. -/
theorem claims {before after : Context} (hyields : Yields placed.step before () after) :
    Claims (View.of placed.unit placed.node) (operationClaim segments method) placed.step := by
  obtain ⟨path, hpath, hkey⟩ := h.exists_path
  rw [h.step_eq] at hyields ⊢
  exact hkey ▸ claims_operation hpath hyields

theorem spares {start : Context} : Spares start.Noted placed.step := by
  refine Placed.spares_step fun hinfo => ?_
  obtain ⟨tag, hmethod, htag, -⟩ := h.tag
  obtain rfl : tag = "Info" := by simpa [htag] using hinfo
  exact absurd hmethod (by decide)

end Placed.OperatesOn

/-- An annotation with which nothing is wrong in some document. -/
def Placed.Declarable (placed : Placed) : Prop :=
  ∃ before after, Yields placed.step before () after

namespace Fold

variable {fold later : Fold} {segments : List Route.Segment} {method : String}

/-- An operation that is admitted leaves its claim and its place behind. -/
theorem origins_of_operatesOn (h : fold.placed.OperatesOn segments method) (herrors : fold.errors = []) :
    fold.after.origins =
      fold.before.origins ++
        [(operationClaim segments method, placeOf fold.placed.unit fold.placed.node)] := by
  rcases guarded_eq_ok_iff.mp fold.folds with hyields | ⟨fault, between, hends, hafter⟩
  · obtain ⟨after, hafter, horigins⟩ := (h.claims hyields).free fold.before (fold.claims h.claim? herrors).1
    obtain ⟨-, rfl⟩ := (yields_iff_ends.mp hyields).unique (yields_iff_ends.mp hafter)
    exact horigins
  · have hnoted := h.spares fold.before fault between (.refl fold.before) hends
    rw [errors_of_fault hnoted hafter] at herrors
    cases herrors

/-- The operation that was admitted is the first one found with its claim. -/
theorem find?_origins (h : fold.placed.OperatesOn segments method) (herrors : fold.errors = [])
    (hbefore : fold.after.origins <+: later.before.origins) :
    later.before.origins.find? (·.1.same (operationClaim segments method)) =
      some (operationClaim segments method, placeOf fold.placed.unit fold.placed.node) := by
  obtain ⟨more, hmore⟩ := hbefore
  have hfree := (fold.claims h.claim? herrors).1
  rw [← hmore, origins_of_operatesOn h herrors, List.append_assoc, List.find?_append,
    List.find?_eq_none.mpr (by simpa using hfree)]
  simp [operationClaim, Claim.same]

/-- An operation on a route that is taken is refused, for this if nothing else is wrong with it. -/
structure Refused (first later : Fold) (key : Claim) : Prop where
  model : later.after.model = later.before.model
  error : ∃ fault : Fault, later.errors = [fault.diagnostic] ∧
    (later.placed.Declarable →
      fault = ⟨.redeclared key (placeOf first.placed.unit first.placed.node),
        placeOf later.placed.unit later.placed.node⟩)

theorem refused_of_operatesOn (h : fold.placed.OperatesOn segments method) (herrors : fold.errors = [])
    (hlater : later.placed.OperatesOn segments method)
    (hbefore : fold.after.origins <+: later.before.origins) :
    Refused fold later (operationClaim segments method) := by
  have hfound := find?_origins h herrors hbefore
  rcases guarded_eq_ok_iff.mp later.folds with hyields | ⟨fault, between, hends, hafter⟩
  · obtain ⟨after, hrefused⟩ := (hlater.claims hyields).taken later.before _ hfound
    cases ((yields_iff_ends.mp hyields).unique hrefused).1
  · have hnoted := hlater.spares later.before fault between (.refl later.before) hends
    refine ⟨by rw [hafter, Context.warn_model, hnoted.model], fault, errors_of_fault hnoted hafter, ?_⟩
    rintro ⟨before, after, hyields⟩
    obtain ⟨after, hrefused⟩ := (hlater.claims hyields).taken later.before _ hfound
    exact Except.error.inj (hends.unique hrefused).1

end Fold

theorem Folds.pairwise_refused {start last : Context} {folds : List Fold} (h : Folds start folds last) :
    folds.Pairwise fun fold later => ∀ segments method, fold.placed.OperatesOn segments method →
      later.placed.OperatesOn segments method → fold.errors = [] →
        Fold.Refused fold later (operationClaim segments method) := by
  induction h with
  | nil => exact .nil
  | cons hrest ih =>
      refine .cons (fun later hlater segments method hfirst hsecond herrors => ?_) ih
      exact Fold.refused_of_operatesOn hfirst herrors hsecond (hrest.origins later hlater)

/-- All spellings of a route have one path, which is why of the operations of a document on one route and
with one method, none is admitted after another one was. -/
theorem spellings_share_path :
    (∀ segments (path : String), Route.Spelled segments path.toList →
      Route.normalize path = String.ofList (Route.canonicalPath segments)) ∧
    ∀ units context, build units = .ok context →
      ∃ declared between, (Folds {} declared between ∧
          declared.map (·.placed) = (placedNodes units).filter (!·.isProperty)) ∧
        declared.Pairwise fun fold later => ∀ segments method, fold.placed.OperatesOn segments method →
          later.placed.OperatesOn segments method → fold.errors = [] →
            Fold.Refused fold later (operationClaim segments method) := by
  refine ⟨fun segments path hspelled => ?_, fun units context hbuild => ?_⟩
  · rw [Route.normalize, hspelled.normalizeChars_eq]
  · obtain ⟨between, hdeclared, -⟩ := Result.bind_eq_ok_iff.mp hbuild
    obtain ⟨declared, hfolds, hnodes⟩ := Folds.exists_of_foldlM (fun placed hplaced _ => by
      have hother : placed.isProperty = false := by simpa using (List.mem_filter.mp hplaced).2
      rw [fold, Placed.step_of_not_isProperty hother]) hdeclared
    exact ⟨declared, between, ⟨hfolds, hnodes⟩, hfolds.pairwise_refused⟩

/-- Two operations of a method, on one route in two spellings. -/
theorem spellings_share_path_users :
    let get (line : Nat) (path : String) : Node :=
      ⟨.text "Get", [(.text "path", .string path)], [], line, 1⟩
    let symbol : Symbol :=
      { kind := .method, name := .text "show", qualifiedName := .text "Users.show", parent := .text "Users" }
    let unit : AnnotatedUnit :=
      { identity := "users.php", fingerprint := ""
        blocks := [⟨symbol, [get 3 "/users/:id", get 4 " users//\x7bid:[0-9]+\x7d/"]⟩] }
    let segments : List Route.Segment := [.literal "users".toList, .parameter "id".toList]
    (Route.Spelled segments "/users/:id".toList ∧ Route.normalize "/users/:id" = "/users/\x7bid\x7d") ∧
      (Route.Spelled segments " users//\x7bid:[0-9]+\x7d/".toList ∧
        Route.normalize " users//\x7bid:[0-9]+\x7d/" = "/users/\x7bid\x7d") ∧
      ∃ context first later between, build [unit] = .ok context ∧ Folds {} [first, later] between ∧
        Fold.Refused first later (.operation "/users/\x7bid\x7d" "get") := by
  intro get symbol unit segments
  have hliteral : Route.IsLiteral "users".toList :=
    ⟨by decide, List.forall_iff_forall_mem.mp (by decide), by rintro c rest ⟨⟩⟩
  have hname : Route.IsPlaceholderName "id".toList :=
    @Route.IsPlaceholderName.intro 'i' ['d'] rfl (List.all_eq_true.mp rfl)
  have hconstrained : Route.Segment.Spells (.parameter "id".toList) "\x7bid:[0-9]+\x7d".toList :=
    @Route.Segment.Spells.constrained _ "[0-9]+".toList hname (by decide)
      (List.forall_iff_forall_mem.mp (by decide))
  have hfirst : Route.Spelled segments "/users/:id".toList :=
    .intro [] [] 1 0 nofun
      (.cons (.literal hliteral) Nat.one_pos (.single (.colon hname))) nofun
  have hsecond : Route.Spelled segments " users//\x7bid:[0-9]+\x7d/".toList :=
    .intro [' '] [] 0 1 (List.all_eq_true.mp rfl)
      (.cons (.literal hliteral) Nat.two_pos (.single hconstrained)) nofun
  let placed (line : Nat) (path : String) : Placed := ⟨"users.php", symbol, get line path⟩
  let first : Placed := placed 3 "/users/:id"
  let second : Placed := placed 4 " users//\x7bid:[0-9]+\x7d/"
  have hoperates (line : Nat) (path : String) (h : Route.Spelled segments path.toList) :
      (placed line path).OperatesOn segments "get" :=
    ⟨⟨"Get", by decide, rfl, rfl⟩, path, rfl, h⟩
  have hyields (line : Nat) (path : String) : ∃ after, Yields (placed line path).step {} () after ∧
      after.diagnostics = [] :=
    ⟨_, by with_unfolding_all rfl, rfl⟩
  obtain ⟨after, hafter, hdiagnostics⟩ := hyields 3 "/users/:id"
  have hfold : guarded first.step {} = .ok after := guarded_eq_ok_iff.mpr (.inl hafter)
  have hnodes : placedNodes [unit] = [first, second] := by
    simp only [placedNodes, List.mergeSort_singleton]
    rfl
  have hbuild : ∃ context, build [unit] = .ok context := by
    obtain ⟨_, hother, horigins⟩ := ((hoperates 3 _ hfirst).claims hafter).free {} (by simp)
    obtain ⟨-, rfl⟩ := (yields_iff_ends.mp hafter).unique (yields_iff_ends.mp hother)
    obtain ⟨_, hlater, -⟩ := hyields 4 " users//\x7bid:[0-9]+\x7d/"
    obtain ⟨last, hlast⟩ := ((hoperates 4 _ hsecond).claims hlater).taken after _ (by
      rw [horigins]
      simp [operationClaim, Claim.same]
      rfl)
    have hrefused : guarded second.step after = .ok _ := guarded_eq_ok_iff.mpr (.inr ⟨_, _, hlast, rfl⟩)
    have hfolds : [first, second].foldlM fold {} = .ok _ :=
      Result.bind_eq_ok_iff.mpr ⟨after, hfold, Result.bind_eq_ok_iff.mpr ⟨_, hrefused, rfl⟩⟩
    rw [build, hnodes]
    exact ⟨_, Result.bind_eq_ok_iff.mpr ⟨_, hfolds, rfl⟩⟩
  obtain ⟨context, hbuild⟩ := hbuild
  obtain ⟨declared, between, ⟨hfolds, hdeclared⟩, hpairs⟩ := spellings_share_path.2 [unit] context hbuild
  rw [hnodes] at hdeclared
  obtain ⟨one, rest, rfl, hone, hrest⟩ := List.map_eq_cons_iff.mp hdeclared
  obtain ⟨two, rest, rfl, htwo, hnil⟩ := List.map_eq_cons_iff.mp hrest
  obtain rfl : rest = [] := List.map_eq_nil_iff.mp hnil
  have herrors : one.errors = [] := by
    generalize hstart : ({} : Context) = start at hfolds
    cases hfolds
    have hend := one.folds
    rw [hone, ← hstart] at hend
    obtain rfl : after = one.after := Except.ok.inj (hfold.symm.trans hend)
    simp [Fold.errors, hdiagnostics]
  have hrefused : Fold.Refused one two (operationClaim segments "get") :=
    List.rel_of_pairwise_cons hpairs (by simp) segments "get" (hone ▸ hoperates 3 _ hfirst)
      (htwo ▸ hoperates 4 _ hsecond) herrors
  exact ⟨⟨hfirst, spellings_share_path.1 segments _ hfirst⟩,
    ⟨hsecond, spellings_share_path.1 segments _ hsecond⟩, context, one, two, between, hbuild, hfolds, hrefused⟩

end DocCompiler.Build
