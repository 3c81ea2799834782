import DocCompiler.Proofs.Build.Account
import DocCompiler.Proofs.Source.Body

/-!
The schemas that properties of fields join. An admitted schema of a type is kept in mind until another one for a
type of the same name in the same unit takes its place, so that the fields in the body of a type find it.
-/

namespace DocCompiler.Build

open Annotation

section Handlers

variable {kept : List ((String × Datum) × Datum)} {unit : String} {symbol : Symbol} {node : Node}

/-- The schemas of types that are kept in mind. -/
def Context.Minds (kept : List ((String × Datum) × Datum)) (context : Context) : Prop :=
  context.typeSchemas = kept

theorem Notes.keeps_minds {α : Type} {step : Step α} (h : Notes step) : Keeps (Context.Minds kept) step :=
  fun context result after hminds hends =>
    (h context context result after (.refl context) hends).typeSchemas.trans hminds

theorem Reads.keeps_minds {α : Type} {step : Step α} (h : Reads step) : Keeps (Context.Minds kept) step :=
  (Notes.of_reads h).keeps_minds

theorem keeps_minds_alter (change : Model → Model × Option ModelError) :
    Keeps (Context.Minds kept) (alter change) :=
  Keeps.alter fun _ h => h

theorem keeps_minds_contact : Keeps (Context.Minds kept) (contact unit symbol node) :=
  (notes_enterGlobal unit symbol node _).keeps_minds.bind fun _ _ _ _ _ =>
    Keeps.look_bind fun _ _ => Keeps.look_bind fun _ _ => Keeps.look_bind fun _ _ => keeps_minds_alter _

theorem keeps_minds_license : Keeps (Context.Minds kept) (license unit symbol node) :=
  (notes_enterGlobal unit symbol node _).keeps_minds.bind fun _ _ _ _ _ =>
    Keeps.look_bind fun _ _ => Keeps.look_bind fun _ _ => Keeps.look_bind fun _ _ => keeps_minds_alter _

theorem keeps_minds_info : Keeps (Context.Minds kept) (info unit symbol node) := by
  refine (notes_enterGlobal unit symbol node _).keeps_minds.bind fun _ _ _ _ _ => ?_
  refine Keeps.look_bind fun _ _ => (keeps_minds_alter _).bind fun _ _ _ _ _ =>
    Keeps.look_bind fun _ _ => (keeps_minds_alter _).bind fun _ _ _ _ _ =>
    Keeps.look_bind fun _ _ => (keeps_minds_alter _).bind fun _ _ _ _ _ =>
    Keeps.look_bind fun _ _ => (keeps_minds_alter _).bind fun _ _ _ _ _ => ?_
  refine Keeps.look_bind fun _ _ => Keeps.look_bind fun _ _ => Keeps.look_bind fun _ _ => ?_
  refine (Keeps.forM fun child _ => keeps_minds_contact.attempt fun _ _ h => h).bind fun _ _ _ _ _ => ?_
  exact Keeps.forM fun child _ => keeps_minds_license.attempt fun _ _ h => h

theorem keeps_minds_server : Keeps (Context.Minds kept) (server unit symbol node) := by
  refine (Reads.enter unit node).keeps_minds.bind fun _ view _ _ _ =>
    (reads_requireGlobal view symbol).keeps_minds.bind fun _ _ _ _ _ =>
    (reads_required view _).keeps_minds.bind fun _ _ _ _ _ => ?_
  exact (Notes.claim view _).keeps_minds.bind fun _ _ _ _ _ => Keeps.look_bind fun _ _ => keeps_minds_alter _

theorem keeps_minds_apiTag : Keeps (Context.Minds kept) (apiTag unit symbol node) := by
  refine (Reads.enter unit node).keeps_minds.bind fun _ view _ _ _ =>
    (reads_requireGlobal view symbol).keeps_minds.bind fun _ _ _ _ _ =>
    (reads_required view _).keeps_minds.bind fun _ _ _ _ _ => ?_
  exact (Notes.claim view _).keeps_minds.bind fun _ _ _ _ _ => Keeps.look_bind fun _ _ => keeps_minds_alter _

theorem keeps_minds_operation : Keeps (Context.Minds kept) (operation unit symbol node) := by
  refine (Reads.enter unit node).keeps_minds.bind fun _ view _ _ _ =>
    Keeps.ite (fun _ => Keeps.refuse_bind) fun _ => ?_
  refine (reads_required view _).keeps_minds.bind fun _ _ _ _ _ => ?_
  refine Keeps.look_bind fun _ _ => Keeps.look_bind fun _ _ => Keeps.look_bind fun _ _ =>
    Keeps.look_bind fun _ _ => Keeps.look_bind fun _ _ => Keeps.look_bind fun _ _ =>
    Keeps.look_bind fun nodes _ => ?_
  refine (Reads.mapM fun child _ =>
    (Reads.enter unit child).bind (reads_parameter unit)).keeps_minds.bind fun _ _ _ _ _ => ?_
  refine Keeps.look_bind fun bodies _ => Keeps.ite (fun _ => Keeps.refuse_bind) fun _ => ?_
  refine (Reads.optionMapM fun child _ =>
    (Reads.enter unit child).bind (reads_requestBody unit)).keeps_minds.bind fun _ _ _ _ _ => ?_
  refine Keeps.look_bind fun answers _ =>
    (reads_statusResponses _ _ _ _).keeps_minds.bind fun _ _ _ _ _ => ?_
  exact Keeps.look_bind fun _ _ => (Notes.claim view _).keeps_minds.bind fun _ _ _ _ _ => keeps_minds_alter _

theorem keeps_minds_component {view : View} {attr collection : String} {read : Step Part} (h : Reads read)
    (change : Datum → Part → Model → Model × Option ModelError) :
    Keeps (Context.Minds kept) (do
      let name ← componentName view attr
      claimComponent view collection name
      let part ← read
      alter (change name part)) :=
  (reads_componentName view attr).keeps_minds.bind fun _ name _ _ _ =>
    (notes_claimComponent view collection name).keeps_minds.bind fun _ _ _ _ _ =>
    h.keeps_minds.bind fun _ _ _ _ _ => keeps_minds_alter _

theorem keeps_minds_responseComponent : Keeps (Context.Minds kept) (responseComponent unit symbol node) := by
  refine (Reads.enter unit node).keeps_minds.bind fun _ view _ _ _ => ?_
  split
  · split
    · exact Keeps.refuse _ _
    · exact Keeps.giveUp _
  · exact keeps_minds_component (reads_response unit view) _

theorem keeps_minds_securitySchemeComponent :
    Keeps (Context.Minds kept) (securitySchemeComponent unit symbol node) := by
  refine (Reads.enter unit node).keeps_minds.bind fun _ view _ _ _ =>
    (reads_componentName view _).keeps_minds.bind fun _ component _ _ _ =>
    (reads_required view _).keeps_minds.bind fun _ _ _ _ _ => Keeps.look_bind fun _ _ => ?_
  refine (notes_claimComponent view _ component).keeps_minds.bind fun _ _ _ _ _ => ?_
  exact Keeps.look_bind fun _ _ => Keeps.look_bind fun _ _ => Keeps.look_bind fun _ _ =>
    Keeps.look_bind fun _ _ => Keeps.look_bind fun _ _ => keeps_minds_alter _

theorem keeps_minds_fieldProperty : Keeps (Context.Minds kept) (fieldProperty unit symbol node) := by
  refine (Reads.enter unit node).keeps_minds.bind fun _ view _ _ _ =>
    Keeps.ite (fun _ => Keeps.refuse_bind) fun _ => ?_
  refine Keeps.look_bind fun _ _ => Keeps.get.bind fun _ context _ _ _ => ?_
  refine Keeps.ite (fun _ => Keeps.refuse_bind) fun _ => ?_
  dsimp only
  split
  · refine Keeps.look_bind fun _ _ => Keeps.ite (fun _ => Keeps.refuse_bind) fun _ => ?_
    refine Keeps.ite (fun _ => Keeps.refuse_bind) fun _ => ?_
    refine (reads_viewedSchema unit view).keeps_minds.bind fun _ part _ _ _ => ?_
    exact (reads_withInferredType symbol part).keeps_minds.bind fun _ _ _ _ _ => keeps_minds_alter _
  · exact Keeps.refuse _ _

/-- Schemas that are not those of types are not kept in mind. -/
theorem keeps_minds_schemaComponent (htype : symbol.kind ≠ .type) :
    Keeps (Context.Minds kept) (schemaComponent unit symbol node) := by
  refine (Reads.enter unit node).keeps_minds.bind fun _ view _ _ _ =>
    Keeps.ite (fun _ => Keeps.refuse_bind) fun _ => ?_
  refine (reads_schemaName view symbol).keeps_minds.bind fun _ name _ _ _ =>
    (notes_claimComponent view _ name).keeps_minds.bind fun _ _ _ _ _ => ?_
  refine (reads_viewedSchema unit view).keeps_minds.bind fun _ schema _ _ _ => ?_
  exact (keeps_minds_alter _).bind fun _ _ _ _ _ => Keeps.ite (fun h => absurd h htype) fun _ => Keeps.pure _

/-- An admitted schema of a type is kept in mind under the name of its component. -/
theorem minds_of_yields_schemaComponent {before after : Context} (htype : symbol.kind = .type)
    (h : Yields (schemaComponent unit symbol node) before () after) :
    ∃ given, (View.of unit node).text "schema" = .ok given ∧
      after.typeSchemas =
        (before.remember unit symbol.name (if given.isNull then symbol.name else given)).typeSchemas := by
  simp only [schemaComponent, yields_bind_iff, yields_enter_iff, yields_claimComponent_iff, yields_alter_iff,
    yields_ite_iff, not_yields_refuse, yields_pure_iff, yields_rememberSchema_iff, htype, not_true_eq_false,
    and_assoc, exists_and_left, exists_eq_left, exists_const, false_and, and_false, false_or, or_false,
    true_and] at h
  obtain ⟨_, ⟨warnings, hwarnings, rfl⟩, -, name, _, hname, hhashable, hunclaimed, schema, _, hschema, -,
    rfl⟩ := h
  obtain ⟨given, hgiven, rfl, rfl⟩ := given_of_yields_schemaName hname
  obtain ⟨more, hmore, rfl⟩ := (reads_viewedSchema _ _).warns (yields_iff_ends.mp hschema)
  exact ⟨given, hgiven, by simp [Context.remember, Context.change, Context.claim, htype]⟩

end Handlers

namespace Placed

variable {kept : List ((String × Datum) × Datum)} {placed : Placed}

/-- An annotation is the schema of a type of a unit. -/
structure Describes (placed : Placed) (unit type : String) : Prop where
  unit_eq : placed.unit = unit
  tag : placed.node.tag = .text "Schema"
  kind : placed.symbol.kind = .type
  name : placed.symbol.name = .text type

/-- Nothing but the schema of a type changes which schemas are kept in mind. -/
theorem keeps_minds_step (h : placed.node.tag = .text "Schema" → placed.symbol.kind ≠ .type) :
    Keeps (Context.Minds kept) placed.step := by
  refine Keeps.ite (fun _ => keeps_minds_fieldProperty) fun _ => Keeps.look_bind fun _ _ => ?_
  split
  case h_2 => exact Keeps.throw _
  next handler hfound =>
  obtain ⟨tag, htext, hhandler⟩ := Option.bind_eq_some_iff.mp hfound
  have htag : placed.node.tag = .text tag := by
    cases hnode : placed.node.tag <;> simp_all [Datum.text?]
  unfold handler? at hhandler
  split at hhandler
  case h_10 =>
    split_ifs at hhandler
    · cases hhandler
      exact keeps_minds_operation
    · cases hhandler
      exact (Reads.enter _ _).keeps_minds.bind fun _ view _ _ _ => keeps_minds_component (reads_parameter _ view) _
  all_goals cases hhandler
  · exact keeps_minds_info
  · exact keeps_minds_contact
  · exact keeps_minds_license
  · exact keeps_minds_server
  · exact keeps_minds_apiTag
  · exact keeps_minds_schemaComponent (h htag)
  · exact (Reads.enter _ _).keeps_minds.bind fun _ view _ _ _ => keeps_minds_component (reads_requestBody _ view) _
  · exact keeps_minds_responseComponent
  · exact keeps_minds_securitySchemeComponent

end Placed

section Lookup

variable {context other : Context} {unit type : String} {name : Datum}

theorem enclosingSchema_congr (h : other.typeSchemas = context.typeSchemas) (type : Datum) :
    enclosingSchema other unit type = enclosingSchema context unit type := by
  rw [enclosingSchema, enclosingSchema, h]

theorem enclosingSchema_remember_self :
    enclosingSchema (context.remember unit (.text type) name) unit (.text type) = name := by
  simp [enclosingSchema, Context.remember, Datum.sameKey]

theorem enclosingSchema_remember_of_ne {unit' : String} {key : Datum} (h : unit' = unit → key ≠ .text type) :
    enclosingSchema (context.remember unit' key name) unit (.text type) =
      enclosingSchema context unit (.text type) := by
  have hother : (unit' == unit && key.sameKey (.text type)) = false := by
    rw [Bool.and_eq_false_iff, or_iff_not_imp_left]
    intro hunit
    rw [← Bool.not_eq_true, Datum.sameKey_text]
    exact h (by simpa using hunit)
  have hkept (entry : (String × Datum) × Datum)
      (hentry : (entry.1.1 == unit && entry.1.2.sameKey (.text type)) = true) :
      (!(entry.1.1 == unit' && entry.1.2.sameKey key)) = true := by
    simp only [Bool.and_eq_true, beq_iff_eq, Datum.sameKey_text] at hentry
    simp only [hentry.1, hentry.2, Bool.not_eq_true', Bool.and_eq_false_iff, beq_eq_false_iff_ne,
      ← Bool.not_eq_true (Datum.sameKey _ _), Datum.text_sameKey, or_iff_not_imp_left, not_not]
    exact fun hunit => h hunit.symm
  unfold enclosingSchema Context.remember
  dsimp only
  rw [List.find?_cons_of_neg (by simp [hother]), List.find?_filter]
  congr 2
  funext entry
  cases hentry : entry.1.1 == unit && entry.1.2.sameKey (.text type) with
  | false => simp
  | true => simp [hkept entry hentry]

end Lookup

namespace Fold

variable {fold : Fold} {unit type : String}

/-- The schema of a type is admitted and kept in mind as the component that it claims, or refused. -/
theorem schema_cases (htag : fold.placed.node.tag = .text "Schema") (hkind : fold.placed.symbol.kind = .type) :
    (fold.errors = [] ∧ ∃ name, fold.placed.claim? = some (.component Collection.schemas.name name) ∧
        (fold.placed.symbol.name.isNull = false → name.isNull = false) ∧
        fold.after.typeSchemas =
          (fold.before.remember fold.placed.unit fold.placed.symbol.name name).typeSchemas) ∨
      (fold.errors ≠ [] ∧ fold.after.typeSchemas = fold.before.typeSchemas) := by
  have hproperty : fold.placed.isProperty = false := by
    simp [Placed.isProperty, htag, Datum.isText, Datum.text?]
  rcases guarded_eq_ok_iff.mp fold.folds with hyields | ⟨fault, between, hends, hafter⟩
  · have hcounted : fold.placed.kind? = some (.component .schemas) := by
      rw [Placed.kind?, htag]
      rfl
    have hschema : Yields (schemaComponent fold.placed.unit fold.placed.symbol fold.placed.node)
        fold.before () fold.after := by
      rw [Placed.step_of_not_isProperty hproperty, declare, htag] at hyields
      obtain ⟨_, _, hlook, hrest⟩ := yields_bind_iff.mp hyields
      obtain ⟨-, rfl⟩ := yields_look_iff.mp hlook
      exact hrest
    obtain ⟨given, hgiven, hafter⟩ := minds_of_yields_schemaComponent hkind hschema
    obtain ⟨_, -, hdeclares⟩ := declares_schemaComponent hschema
    refine .inl ⟨errors_eq_nil hdeclares.diagnostics, _, ?_, fun hnamed => ?_, hafter⟩
    · simp [Placed.claim?, hcounted, nameAttribute, hgiven, Except.toOption, hkind]
    · split_ifs with hnull
      · exact hnamed
      · simpa using hnull
  · have hnoted := (Placed.noted_of_fault hends).1 (by simp [htag])
    refine .inr ⟨?_, ?_⟩
    · rw [errors_of_fault hnoted hafter]
      exact List.cons_ne_nil _ _
    · rw [hafter, Context.warn_typeSchemas, hnoted.typeSchemas]

/-- An admitted schema of a type is the one that the type has afterwards. -/
theorem enclosingSchema_of_describes (h : fold.placed.Describes unit type) (herrors : fold.errors = []) :
    ∃ name, fold.placed.claim? = some (.component Collection.schemas.name name) ∧ name.isNull = false ∧
      enclosingSchema fold.after unit (.text type) = name := by
  rcases schema_cases h.tag h.kind with ⟨-, name, hclaim, hnamed, hafter⟩ | ⟨hrefused, -⟩
  · rw [h.unit_eq, h.name] at hafter
    refine ⟨name, hclaim, hnamed (by rw [h.name]; rfl), ?_⟩
    rw [enclosingSchema_congr hafter, enclosingSchema_remember_self]
  · exact absurd herrors hrefused

/-- What is no admitted schema of a type of a name leaves the schema of that type as it is. -/
theorem enclosingSchema_eq (h : fold.errors = [] → ¬ fold.placed.Describes unit type) :
    enclosingSchema fold.after unit (.text type) = enclosingSchema fold.before unit (.text type) := by
  by_cases hschema : fold.placed.node.tag = .text "Schema" ∧ fold.placed.symbol.kind = .type
  · rcases schema_cases hschema.1 hschema.2 with ⟨herrors, name, -, -, hafter⟩ | ⟨-, hafter⟩
    · rw [enclosingSchema_congr hafter]
      exact enclosingSchema_remember_of_ne fun hunit hname =>
        h herrors ⟨hunit, hschema.1, hschema.2, hname⟩
    · exact enclosingSchema_congr hafter _
  · have hkeeps : Keeps (Context.Minds fold.before.typeSchemas) fold.placed.step :=
      Placed.keeps_minds_step fun htag hkind => hschema ⟨htag, hkind⟩
    exact enclosingSchema_congr (hkeeps.of_guarded (fun _ _ h => h) rfl fold.folds) _

/-- A property of a field finds a schema: it is the one of the type around the field, and the property becomes
part of it if it is admitted. -/
structure Finds (fold : Fold) (schema : Datum) : Prop where
  enclosing : enclosingSchema fold.before fold.placed.unit (orEmpty fold.placed.symbol.parent) = schema
  named : schema.isNull = false
  added : fold.errors = [] →
    ∃ name property, fold.after.model = (addProperty schema name property fold.before.model).1

/-- The property that an admitted annotation of a field adds, it adds to the schema of the type around it. -/
theorem model_of_isProperty (hproperty : fold.placed.isProperty = true) (herrors : fold.errors = []) :
    ∃ name property, fold.after.model = (addProperty
      (enclosingSchema fold.before fold.placed.unit (orEmpty fold.placed.symbol.parent)) name property
      fold.before.model).1 := by
  rcases guarded_eq_ok_iff.mp fold.folds with h | ⟨fault, between, hends, hafter⟩
  · rw [Placed.step_of_isProperty hproperty] at h
    simp only [fieldProperty, yields_bind_iff, yields_enter_iff, yields_ite_iff, not_yields_refuse,
      yields_look_iff, yields_get_iff, and_assoc, exists_and_left, exists_eq_left, exists_const, false_and,
      and_false, false_or] at h
    obtain ⟨_, ⟨warnings, -, rfl⟩, -, _, -, -, h⟩ := h
    split at h
    · simp only [yields_bind_iff, yields_ite_iff, not_yields_refuse, yields_look_iff, yields_alter_iff,
        and_assoc, exists_and_left, exists_eq_left, exists_const, false_and, and_false, false_or] at h
      obtain ⟨given, -, -, -, schema, _, hschema, property, _, hinferred, hafter⟩ := h
      obtain ⟨first, -, rfl⟩ := (reads_viewedSchema _ _).warns (yields_iff_ends.mp hschema)
      obtain ⟨second, -, rfl⟩ := (reads_withInferredType _ _).warns (yields_iff_ends.mp hinferred)
      exact ⟨_, property, by rw [hafter]; rfl⟩
    · exact absurd h not_yields_refuse
  · have htag : fold.placed.node.tag ≠ .text "Info" := by
      rw [Datum.isText_iff.mp hproperty]
      simp
    rw [errors_of_fault ((Placed.noted_of_fault hends).1 htag) hafter] at herrors
    cases herrors

theorem finds_of_enclosingSchema {schema : Datum} (hproperty : fold.placed.isProperty = true)
    (hparent : fold.placed.symbol.parent = .text type) (hnamed : schema.isNull = false)
    (h : enclosingSchema fold.before fold.placed.unit (.text type) = schema) : fold.Finds schema := by
  have hempty : orEmpty (.text type) = .text type := by
    unfold orEmpty
    split_ifs with htruthy
    · rfl
    · simpa [Datum.isTruthy] using htruthy
  have henclosing : enclosingSchema fold.before fold.placed.unit (orEmpty fold.placed.symbol.parent) = schema := by
    rw [hparent, hempty, h]
  exact ⟨henclosing, hnamed, fun herrors => henclosing ▸ model_of_isProperty hproperty herrors⟩

end Fold

namespace Folds

variable {start last : Context} {folds : List Fold} {unit type : String}

theorem before_eq {fold : Fold} (h : Folds start (fold :: folds) last) : fold.before = start := by
  cases h
  rfl

/-- The part of a run behind one of its annotations. -/
theorem drop {first : List Fold} {fold : Fold} {later : List Fold}
    (h : Folds start (first ++ fold :: later) last) : Folds fold.after later last := by
  induction first generalizing start with
  | nil =>
      cases h with
      | cons hrest => exact hrest
  | cons other rest ih =>
      cases h with
      | cons hrest => exact ih hrest

/-- As long as no schema of a type of a name is admitted, the type keeps the schema it has. -/
theorem enclosingSchema_eq (h : Folds start folds last)
    (hnone : ∀ fold ∈ folds, fold.errors = [] → ¬ fold.placed.Describes unit type) :
    enclosingSchema last unit (.text type) = enclosingSchema start unit (.text type) ∧
      ∀ fold ∈ folds,
        enclosingSchema fold.before unit (.text type) = enclosingSchema start unit (.text type) := by
  induction h with
  | nil => exact ⟨rfl, by simp⟩
  | @cons first rest last _ ih =>
      rw [List.forall_mem_cons] at hnone
      obtain ⟨hlast, hrest⟩ := ih hnone.2
      have hfirst := Fold.enclosingSchema_eq hnone.1
      exact ⟨hlast.trans hfirst, List.forall_mem_cons.mpr
        ⟨rfl, fun fold hfold => (hrest fold hfold).trans hfirst⟩⟩

end Folds

/-- In a document that is built from units, the properties of a member find the schema of its type: of the schemas
that are admitted for types of that name in the unit, the last one. -/
def MembersFind (units : List AnnotatedUnit) (context : Context) (identity type : String) (owner member : Symbol) :
    Prop :=
  ∃ declared between properties,
    (Folds {} declared between ∧ declared.map (·.placed) = (placedNodes units).filter (!·.isProperty)) ∧
    (Folds between properties context ∧ properties.map (·.placed) = (placedNodes units).filter (·.isProperty)) ∧
    ∀ first schema later node, declared = first ++ schema :: later →
      schema.placed = ⟨identity, owner, node⟩ → node.tag = .text "Schema" → schema.errors = [] →
      (∀ other ∈ later, other.errors = [] → ¬ other.placed.Describes identity type) →
      ∃ name, schema.placed.claim? = some (.component Collection.schemas.name name) ∧
        ∀ property ∈ properties, property.placed.unit = identity → property.placed.symbol = member →
          property.Finds name

theorem membersFind {units : List AnnotatedUnit} {context : Context} (h : build units = .ok context)
    {identity type : String} {owner member : Symbol} (hkind : owner.kind = .type) (hname : owner.name = .text type)
    (hparent : member.parent = .text type) : MembersFind units context identity type owner member := by
  obtain ⟨declared, between, properties, hdeclared, hproperties, -⟩ := build_accounts h
  refine ⟨declared, between, properties, hdeclared, hproperties, ?_⟩
  intro first schema later node hsplit hplaced htag herrors hnone
  have hdescribes : schema.placed.Describes identity type := by
    rw [hplaced]
    exact ⟨rfl, htag, hkind, hname⟩
  obtain ⟨name, hclaim, hnamed, hafter⟩ := Fold.enclosingSchema_of_describes hdescribes herrors
  have hbetween : enclosingSchema between identity (.text type) = name :=
    ((hsplit ▸ hdeclared.1).drop.enclosingSchema_eq hnone).1.trans hafter
  have hkinds : ∀ property ∈ properties, property.placed.isProperty = true := by
    intro property hproperty
    have hmem : property.placed ∈ properties.map (·.placed) := List.mem_map_of_mem hproperty
    exact (List.mem_filter.mp (hproperties.2 ▸ hmem)).2
  have hother : ∀ property ∈ properties, property.errors = [] → ¬ property.placed.Describes identity type := by
    intro property hproperty _ hschema
    have htagged := Datum.isText_iff.mp (hkinds property hproperty)
    rw [hschema.tag] at htagged
    simp at htagged
  have hkept := (hproperties.1.enclosingSchema_eq hother).2
  refine ⟨name, hclaim, fun property hproperty hunit hsymbol => ?_⟩
  refine Fold.finds_of_enclosingSchema (hkinds property hproperty) (hsymbol ▸ hparent) hnamed ?_
  rw [hunit, hkept property hproperty, hbetween]

end DocCompiler.Build

namespace DocCompiler.Detector.Documents

open Text Build Annotation

variable {detector : Detector} {identity : String} {text : List Char} {block : Block} {declaration : Declaration}

/-- A type that a doc comment stands before, with nothing but spaces and tabs before it on its line and a brace
behind it, is found with a body that starts no later than its declaration. What is documented in that body, with no
other type around it that starts later, is a member of the type, and its properties find the schema of the type. -/
theorem encloses_members (h : detector.Documents identity text block declaration) (hbuiltin : detector ∈ builtin)
    (htype : declaration.kind = .type)
    (hline : ∀ c ∈ lastLine (text.take declaration.offset), isInlineBlank c = true)
    (hbrace : '\x7b' ∈ text.drop declaration.offset) :
    ∃ span ∈ detector.typeSpans text,
      (span.name = declaration.name ∧ span.start ≤ declaration.offset ∧ declaration.offset < span.stop) ∧
      ∀ member inner, detector.Documents identity text member inner → inner.kind ≠ .type →
        span.holds inner.offset = true →
        (∀ other ∈ detector.typeSpans text, other.holds inner.offset = true → other.start ≤ span.start) →
        (member.symbol.parent = .text declaration.name ∧
          member.symbol.qualifiedName = .text (declaration.name ++ "." ++ inner.name)) ∧
        ∀ units context, build units = .ok context →
          MembersFind units context identity declaration.name block.symbol member.symbol := by
  obtain ⟨span, hspan, hname, hstart, hstop⟩ := h.exists_typeSpan hbuiltin htype hline hbrace
  refine ⟨span, hspan, ⟨hname, hstart, hstop⟩, fun member inner hmember hkind hholds hlast => ?_⟩
  obtain ⟨-, hparent, hqualified⟩ :=
    hmember.symbol_of_member hkind hspan (hname ▸ h.name_ne_empty hbuiltin htype) hholds hlast
  rw [hname] at hparent hqualified
  obtain ⟨howner, hownerName, -⟩ := h.symbol_of_type htype
  exact ⟨⟨hparent, hqualified⟩, fun units context hbuild => membersFind hbuild howner hownerName hparent⟩

/-- A class at the start of a line, with a field in its body: the field is a member of the class, and its property
finds the schema of the class. -/
theorem encloses_members_pet :
    let text := "<?php\n/** @Schema */\nclass Pet \x7b\n  /** @Property */\n  public int $id;\n\x7d\n".toList
    let pet : Symbol := { kind := .type, name := .text "Pet", qualifiedName := .text "Pet" }
    let id : Symbol :=
      { kind := .field, name := .text "id", qualifiedName := .text "Pet.id", parent := .text "Pet"
        declaredType := .text "int" }
    let unit : AnnotatedUnit :=
      { identity := "pet.php", fingerprint := ""
        blocks := [⟨pet, [⟨.text "Schema", [], [], 2, 5⟩]⟩, ⟨id, [⟨.text "Property", [], [], 4, 7⟩]⟩] }
    ∃ block declaration member inner,
      (php.Documents "pet.php" text block declaration ∧ declaration.kind = .type ∧ block.symbol = pet ∧
        (∀ c ∈ lastLine (text.take declaration.offset), isInlineBlank c = true) ∧
        '\x7b' ∈ text.drop declaration.offset) ∧
      (php.Documents "pet.php" text member inner ∧ inner.kind ≠ .type ∧ member.symbol = id) ∧
      ∃ span ∈ php.typeSpans text, span.name = "Pet" ∧ span.holds inner.offset = true ∧
        ∃ context, ∃ property : Fold, build [unit] = .ok context ∧ context.model.propertyCount = 1 ∧
          property.placed.symbol = id ∧ property.Finds (.text "Pet") := by
  intro text pet id unit
  have hspans : php.typeSpans text = [⟨"Pet", 21, 71⟩] := by decide +kernel
  have hblock : php.Documents "pet.php" text _ ⟨.type, "Pet", 21, none⟩ :=
    ⟨⟨6, " @Schema ".toList, 20⟩, by decide +kernel, rfl, by decide +kernel⟩
  have hmember : php.Documents "pet.php" text _ ⟨.field, "id", 54, some "int"⟩ :=
    ⟨⟨35, " @Property ".toList, 51⟩, by decide +kernel, rfl, by decide +kernel⟩
  have hpet : _ = pet := hblock.symbol_eq.trans (by rw [hspans]; rfl)
  have hid : _ = id := hmember.symbol_eq.trans (by rw [hspans]; rfl)
  have hphp : php ∈ builtin := by simp [builtin]
  have hline : ∀ c ∈ lastLine (text.take 21), isInlineBlank c = true :=
    List.all_eq_true.mp (by decide +kernel)
  have hbrace : '\x7b' ∈ text.drop 21 := by decide +kernel
  obtain ⟨span, hspan, -, hmembers⟩ := encloses_members hblock hphp rfl hline hbrace
  obtain rfl : span = ⟨"Pet", 21, 71⟩ := by simpa [hspans] using hspan
  obtain ⟨-, hfind⟩ := hmembers _ _ hmember (by decide) rfl (by simp [hspans])
  rw [hpet, hid] at hfind
  have hbuild : ∃ context, build [unit] = .ok context ∧ context.model.propertyCount = 1 := by
    simp only [build, placedNodes, List.mergeSort_singleton]
    exact ⟨_, rfl, rfl⟩
  obtain ⟨context, hbuild, hcount⟩ := hbuild
  obtain ⟨declared, between, properties, ⟨hfolds, hdeclared⟩, ⟨-, hproperties⟩, hfind⟩ := hfind _ _ hbuild
  -- One schema is declared, and one property.
  simp only [placedNodes, List.mergeSort_singleton] at hdeclared hproperties
  obtain ⟨schema, rfl, hschema⟩ := List.map_eq_singleton_iff.mp hdeclared
  obtain ⟨property, rfl, hproperty⟩ := List.map_eq_singleton_iff.mp hproperties
  have hstart : schema.before = {} := hfolds.before_eq
  have herrors : schema.errors = [] := by
    have hafter := schema.folds
    rw [hschema, hstart] at hafter
    have hquiet : ∃ after,
        guarded (Placed.step ⟨"pet.php", pet, ⟨.text "Schema", [], [], 2, 5⟩⟩) {} = .ok after ∧
          after.diagnostics = [] := ⟨_, rfl, rfl⟩
    obtain ⟨after, hends, hnone⟩ := hquiet
    obtain rfl := Except.ok.inj (hafter.symm.trans hends)
    rw [Fold.errors, hnone, List.drop_nil, List.filter_nil]
  obtain ⟨name, hclaim, hfound⟩ := hfind [] schema [] _ rfl hschema rfl herrors (by simp)
  have hname : name = .text "Pet" := by
    rw [hschema] at hclaim
    cases hclaim
    rfl
  have hfinds := hfound property List.mem_cons_self (by rw [hproperty]) (by rw [hproperty])
  exact ⟨_, _, _, _, ⟨hblock, rfl, hpet, hline, hbrace⟩, ⟨hmember, by decide, hid⟩, _, hspan, rfl, rfl,
    context, property, hbuild, hcount, by rw [hproperty], hname ▸ hfinds⟩

/-- A class on the line of its doc comment: the comment is attached to it, but no body is found, so that the field in
it has no parent and its property no schema. -/
theorem typeSpans_eq_nil_of_shared_line :
    let text := "<?php\n/** @Schema */ class Pet \x7b\n  /** @Property */\n  public int $id;\n\x7d\n".toList
    ∃ block declaration member inner,
      (php.Documents "pet.php" text block declaration ∧ declaration.kind = .type ∧ declaration.name = "Pet" ∧
        '\x7b' ∈ text.drop declaration.offset) ∧
      (php.Documents "pet.php" text member inner ∧ inner.kind = .field) ∧
      php.typeSpans text = [] ∧ member.symbol.parent = .null ∧ member.symbol.qualifiedName = .text "id" ∧
        ∃ context, build [⟨"pet.php", "", [⟨block.symbol, [⟨.text "Schema", [], [], 2, 5⟩]⟩,
            ⟨member.symbol, [⟨.text "Property", [], [], 3, 7⟩]⟩], []⟩] = .ok context ∧
          context.diagnostics.map (·.message) = ["property id has no enclosing @Schema"] := by
  intro text
  have hspans : php.typeSpans text = [] := by decide +kernel
  have hblock : php.Documents "pet.php" text _ ⟨.type, "Pet", 21, none⟩ :=
    ⟨⟨6, " @Schema ".toList, 20⟩, by decide +kernel, rfl, by decide +kernel⟩
  have hmember : php.Documents "pet.php" text _ ⟨.field, "id", 54, some "int"⟩ :=
    ⟨⟨35, " @Property ".toList, 51⟩, by decide +kernel, rfl, by decide +kernel⟩
  refine ⟨_, _, _, _, ⟨hblock, rfl, rfl, by decide +kernel⟩, ⟨hmember, rfl⟩, hspans, ?_⟩
  rw [hblock.symbol_eq, hmember.symbol_eq, hspans]
  simp only [build, placedNodes, List.mergeSort_singleton]
  exact ⟨rfl, rfl, _, rfl, rfl⟩

end DocCompiler.Detector.Documents
