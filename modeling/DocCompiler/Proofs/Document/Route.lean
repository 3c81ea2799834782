import Mathlib.Data.List.Infix
import Mathlib.Data.List.TakeWhile
import Mathlib.Tactic.SplitIfs
import DocCompiler.Document.Route
import DocCompiler.Proofs.Text.Line

/-!
The rules by which paths are rewritten. Each pass of the normal form is a relation between texts, one
rule for a placeholder and one for any other character, and the function is shown to follow it.
-/

namespace DocCompiler.Route

open Text

/-- The name of a placeholder: a letter or an underscore, with letters, digits and underscores behind. -/
inductive IsPlaceholderName : List Char → Prop
  | intro {c : Char} {rest : List Char} (hc : isNameStart c = true)
      (hrest : ∀ d ∈ rest, isNameChar d = true) : IsPlaceholderName (c :: rest)

/-- A text starts with a placeholder that is written with a colon behind a slash. -/
inductive StartsColon : List Char → Prop
  | intro {c : Char} (rest : List Char) (hc : isNameStart c = true) : StartsColon ('/' :: ':' :: c :: rest)

/-- A text starts with a placeholder in braces with a constraint, which may stand behind blanks. -/
inductive StartsConstrained : List Char → Prop
  | intro {name blanks constraint : List Char} (rest : List Char) (hname : IsPlaceholderName name)
      (hblanks : ∀ c ∈ blanks, isBlank c = true) (hne : constraint ≠ []) (hclosed : '\x7d' ∉ constraint) :
      StartsConstrained
        ('\x7b' :: (name ++ (blanks ++ ':' :: (constraint ++ '\x7d' :: rest))))

/-- Nowhere in a text does something start. -/
def Free (starts : List Char → Prop) (text : List Char) : Prop :=
  ∀ rest, rest <:+ text → ¬ starts rest

section Characters

variable {c : Char}

theorem isNameChar_of_isNameStart (h : isNameStart c = true) : isNameChar c = true := by
  simp only [isNameStart, Bool.or_eq_true] at h
  simp only [isNameChar, Char.isAlphanum, Bool.or_eq_true]
  exact h.imp_left .inl

theorem isNameChar_of_isBlank (h : isBlank c = true) : isNameChar c = false := by
  have hword := isWord_of_isBlank h
  rw [isWord, Bool.or_eq_false_iff] at hword
  exact hword.1

theorem isBlank_of_isNameChar (h : isNameChar c = true) : isBlank c = false := by
  cases hblank : isBlank c with
  | false => rfl
  | true => rw [isNameChar_of_isBlank hblank] at h; cases h

theorem ne_of_isNameChar {mark : Char} (h : isNameChar c = true) (hmark : isNameChar mark = false) :
    c ≠ mark := by
  rintro rfl
  rw [h] at hmark
  cases hmark

theorem ne_of_isBlank {mark : Char} (h : isBlank c = true) (hmark : isBlank mark = false) : c ≠ mark := by
  rintro rfl
  rw [h] at hmark
  cases hmark

end Characters

namespace IsPlaceholderName

variable {name rest : List Char} (h : IsPlaceholderName name)

include h

theorem isNameChar : ∀ c ∈ name, isNameChar c = true := by
  obtain ⟨hc, hrest⟩ := h
  exact List.forall_mem_cons.mpr ⟨isNameChar_of_isNameStart hc, hrest⟩

theorem notMem (mark : Char) (hmark : Route.isNameChar mark = false) : mark ∉ name :=
  fun hmem => ne_of_isNameChar (h.isNameChar mark hmem) hmark rfl

theorem ne_nil : name ≠ [] := by
  obtain ⟨-, -⟩ := h
  exact List.cons_ne_nil _ _

theorem placeholderName_append (hrest : Stops Route.isNameChar rest) :
    placeholderName (name ++ rest) = name := by
  obtain ⟨hc, hname⟩ := h
  rw [List.cons_append, placeholderName, if_pos hc, takeWhile_append_of_stops hname hrest]

end IsPlaceholderName

/-- The name at the start of a text is as long as can be, and there is none before other characters. -/
theorem placeholderName_spec (text : List Char) :
    (placeholderName text = [] ∧ Stops isNameStart text) ∨
      ∃ name rest, text = name ++ rest ∧ placeholderName text = name ∧ IsPlaceholderName name ∧
        Stops isNameChar rest := by
  cases text with
  | nil => exact .inl ⟨rfl, nofun⟩
  | cons c text =>
      rw [placeholderName]
      split_ifs with hc
      · refine .inr ⟨c :: text.takeWhile isNameChar, text.dropWhile isNameChar, ?_, rfl,
          .intro hc fun d hd => List.all_eq_true.mp List.all_takeWhile d hd, stops_dropWhile _ _⟩
        rw [List.cons_append, List.takeWhile_append_dropWhile]
      · exact .inl ⟨rfl, .cons (Bool.eq_false_iff.mpr hc)⟩

namespace Free

variable {starts : List Char → Prop} {c : Char} {text : List Char}

theorem cons_iff : Free starts (c :: text) ↔ ¬ starts (c :: text) ∧ Free starts text := by
  simp only [Free, List.suffix_cons_iff]
  constructor
  · exact fun h => ⟨h _ (.inl rfl), fun rest hrest => h rest (.inr hrest)⟩
  · rintro ⟨hfirst, hlater⟩ rest (rfl | hrest)
    · exact hfirst
    · exact hlater rest hrest

theorem nil (h : ¬ starts []) : Free starts [] := by
  intro rest hrest
  rwa [List.suffix_nil.mp hrest]

theorem suffix {rest : List Char} (h : Free starts text) (hrest : rest <:+ text) : Free starts rest :=
  fun part hpart => h part (hpart.trans hrest)

/-- Where nothing starts, nothing starts in front of what follows. -/
theorem of_append (hmono : ∀ text rest, starts text → starts (text ++ rest)) {rest : List Char}
    (h : Free starts (text ++ rest)) : Free starts text := by
  rintro part ⟨before, rfl⟩ hstarts
  exact h (part ++ rest) ⟨before, by simp⟩ (hmono part rest hstarts)

/-- Nothing starts at characters with which it cannot start. -/
theorem append {mark : Char} (hmark : ∀ text, starts text → text.head? = some mark) {part : List Char}
    (hpart : mark ∉ part) (h : Free starts text) : Free starts (part ++ text) := by
  induction part with
  | nil => exact h
  | cons c part ih =>
      rw [List.mem_cons, not_or] at hpart
      refine cons_iff.mpr ⟨fun hstarts => hpart.1 ?_, ih hpart.2⟩
      simpa using (hmark _ hstarts).symm

end Free

theorem StartsColon.head? {text : List Char} (h : StartsColon text) : text.head? = some '/' := by
  obtain ⟨rest, -⟩ := h
  rfl

theorem StartsConstrained.head? {text : List Char} (h : StartsConstrained text) :
    text.head? = some '\x7b' := by
  obtain ⟨rest, -, -, -, -⟩ := h
  rfl

theorem StartsColon.append (text rest : List Char) (h : StartsColon text) : StartsColon (text ++ rest) := by
  obtain ⟨more, hc⟩ := h
  exact .intro (more ++ rest) hc

theorem StartsConstrained.append (text rest : List Char) (h : StartsConstrained text) :
    StartsConstrained (text ++ rest) := by
  obtain ⟨more, hname, hblanks, hne, hclosed⟩ := h
  simpa using StartsConstrained.intro (more ++ rest) hname hblanks hne hclosed

/-- A colon behind a name in braces starts a constraint if a brace closes later. -/
theorem startsConstrained_of_closing {name blanks rest : List Char} (hname : IsPlaceholderName name)
    (hblanks : ∀ c ∈ blanks, isBlank c = true) (hclosing : '\x7d' ∈ rest)
    (hhead : rest.head? ≠ some '\x7d') :
    StartsConstrained ('\x7b' :: (name ++ (blanks ++ ':' :: rest))) := by
  obtain ⟨constraint, after, rfl, hclosed⟩ := List.eq_append_cons_of_mem hclosing
  refine .intro after hname hblanks ?_ hclosed
  rintro rfl
  exact hhead rfl

theorem stops_isNameChar_cons {blanks rest : List Char} {mark : Char}
    (hblanks : ∀ c ∈ blanks, isBlank c = true) (hmark : isNameChar mark = false) :
    Stops isNameChar (blanks ++ mark :: rest) := by
  cases blanks with
  | nil => exact .cons hmark
  | cons c blanks => exact .cons (isNameChar_of_isBlank (hblanks c List.mem_cons_self))

/-- What stands behind the name of a placeholder with a constraint. -/
theorem StartsConstrained.exists_behind {name rest : List Char} (hname : IsPlaceholderName name)
    (hstops : Stops isNameChar rest) (h : StartsConstrained ('\x7b' :: (name ++ rest))) :
    ∃ c, rest.head? = some c ∧ (isBlank c = true ∨ c = ':') := by
  generalize htext : '\x7b' :: (name ++ rest) = text at h
  obtain @⟨other, blanks, constraint, more, hother, hblanks, -, -⟩ := h
  have hrest := (List.cons.inj htext).2
  have hnames := congrArg placeholderName hrest
  rw [hname.placeholderName_append hstops,
    hother.placeholderName_append (stops_isNameChar_cons hblanks rfl)] at hnames
  subst hnames
  obtain rfl := List.append_cancel_left hrest
  cases blanks with
  | nil => exact ⟨':', rfl, .inr rfl⟩
  | cons c blanks => exact ⟨c, rfl, .inl (hblanks c List.mem_cons_self)⟩

/-- A constraint is found, and how long it is with its placeholder. -/
theorem constrained?_eq {name blanks constraint : List Char} (rest : List Char)
    (hname : IsPlaceholderName name) (hblanks : ∀ c ∈ blanks, isBlank c = true) (hne : constraint ≠ [])
    (hclosed : '\x7d' ∉ constraint) :
    constrained? ('\x7b' :: (name ++ (blanks ++ ':' :: (constraint ++ '\x7d' :: rest)))) =
      some (name, (name ++ (blanks ++ ':' :: (constraint ++ ['\x7d']))).length + 1) := by
  have hfound : placeholderName (name ++ (blanks ++ ':' :: (constraint ++ '\x7d' :: rest))) = name :=
    hname.placeholderName_append (stops_isNameChar_cons hblanks rfl)
  have hskip : (blanks ++ ':' :: (constraint ++ '\x7d' :: rest)).takeWhile isBlank = blanks :=
    takeWhile_append_of_stops hblanks (.cons (by decide))
  have htake : (constraint ++ '\x7d' :: rest).takeWhile (· != '\x7d') = constraint := by
    refine takeWhile_append_of_stops (fun c hc => ?_) (.cons (by decide))
    rw [bne_iff_ne]
    rintro rfl
    exact hclosed hc
  have hkept : ¬ (name.isEmpty || decide (constraint.length = 0) ||
      decide (constraint.length = (constraint ++ '\x7d' :: rest).length)) = true := by
    simp [hname.ne_nil, hne]
  simp only [constrained?, hfound, List.drop_left, hskip, htake]
  rw [if_neg hkept]
  simp only [Option.some.injEq, Prod.mk.injEq, true_and, List.length_append, List.length_cons,
    List.length_nil]
  omega

/-- What is found is a placeholder with a constraint. -/
theorem startsConstrained_of_constrained? {text : List Char} {found : List Char × Nat}
    (h : constrained? text = some found) : StartsConstrained text := by
  unfold constrained? at h
  split at h
  case h_2 => cases h
  next rest =>
  dsimp only at h
  split at h
  case h_2 => cases h
  next constraint hconstraint =>
  split_ifs at h with hbad
  simp only [Bool.or_eq_true, decide_eq_true_eq, not_or, List.isEmpty_iff] at hbad
  obtain ⟨⟨hfound, hne⟩, hshort⟩ := hbad
  rcases placeholderName_spec rest with ⟨hnone, -⟩ | ⟨name, after, rfl, hname, hvalid, -⟩
  · exact absurd hnone hfound
  · rw [hname, List.drop_left, drop_length_takeWhile] at hconstraint
    have hsplit : after = after.takeWhile isBlank ++ ':' :: constraint := by
      rw [← hconstraint, List.takeWhile_append_dropWhile]
    rw [hsplit]
    refine startsConstrained_of_closing hvalid (fun c hc => List.all_eq_true.mp List.all_takeWhile c hc) ?_ ?_
    · by_contra hnone
      refine hshort (congrArg List.length (List.takeWhile_eq_self_iff.mpr (fun c hc => ?_)))
      rw [bne_iff_ne]
      rintro rfl
      exact hnone hc
    · intro hhead
      cases constraint with
      | nil => cases hhead
      | cons c constraint =>
          obtain rfl := Option.some.inj hhead
          exact hne rfl

/-- How placeholders with colons are put in braces. -/
inductive Braces : List Char → List Char → Prop
  | nil : Braces [] []
  | placeholder {name rest later : List Char} (hname : IsPlaceholderName name)
      (hstops : Stops isNameChar rest) (h : Braces rest later) :
      Braces ('/' :: ':' :: (name ++ rest)) ('/' :: '\x7b' :: (name ++ '\x7d' :: later))
  | char {c : Char} {rest later : List Char} (hother : ¬ StartsColon (c :: rest)) (h : Braces rest later) :
      Braces (c :: rest) (c :: later)

/-- How constraints are taken out of placeholders. -/
inductive Drops : List Char → List Char → Prop
  | nil : Drops [] []
  | placeholder {name blanks constraint rest later : List Char} (hname : IsPlaceholderName name)
      (hblanks : ∀ c ∈ blanks, isBlank c = true) (hne : constraint ≠ []) (hclosed : '\x7d' ∉ constraint)
      (h : Drops rest later) :
      Drops ('\x7b' :: (name ++ (blanks ++ ':' :: (constraint ++ '\x7d' :: rest))))
        ('\x7b' :: (name ++ '\x7d' :: later))
  | char {c : Char} {rest later : List Char} (hother : ¬ StartsConstrained (c :: rest))
      (h : Drops rest later) : Drops (c :: rest) (c :: later)

/-- How runs of slashes become one. -/
inductive Merges : List Char → List Char → Prop
  | nil : Merges [] []
  | slash {rest later : List Char} (h : Merges ('/' :: rest) later) : Merges ('/' :: '/' :: rest) later
  | char {c : Char} {rest later : List Char} (hother : ¬ ['/', '/'] <+: c :: rest) (h : Merges rest later) :
      Merges (c :: rest) (c :: later)

section Passes

variable {name rest : List Char}

theorem braceColons_skip (part : List Char) : braceColons part.length (part ++ rest) = braceColons 0 rest := by
  induction part with
  | nil => rfl
  | cons c part ih => exact ih

theorem dropConstraints_skip (part : List Char) :
    dropConstraints part.length (part ++ rest) = dropConstraints 0 rest := by
  induction part with
  | nil => rfl
  | cons c part ih => exact ih

theorem braceColons_placeholder (hname : IsPlaceholderName name) (hstops : Stops isNameChar rest) :
    braceColons 0 ('/' :: ':' :: (name ++ rest)) = '/' :: '\x7b' :: (name ++ '\x7d' :: braceColons 0 rest) := by
  simp [braceColons, hname.placeholderName_append hstops, hname.ne_nil, braceColons_skip]

theorem braceColons_char {c : Char} (hother : ¬ StartsColon (c :: rest)) :
    braceColons 0 (c :: rest) = c :: braceColons 0 rest := by
  by_cases hcolon : ∃ more, c = '/' ∧ rest = ':' :: more
  · obtain ⟨more, rfl, rfl⟩ := hcolon
    rcases placeholderName_spec more with ⟨hnone, -⟩ | ⟨name, after, rfl, -, ⟨hc, -⟩, -⟩
    · rw [braceColons, if_neg (Nat.lt_irrefl 0)]
      simp only [hnone, List.isEmpty_nil, if_true]
    · exact absurd (.intro _ hc) hother
  · rw [braceColons, if_neg (Nat.lt_irrefl 0)]
    exact fun more hslash hrest => hcolon ⟨more, hslash, hrest⟩

theorem dropConstraints_placeholder {blanks constraint : List Char} (rest : List Char)
    (hname : IsPlaceholderName name) (hblanks : ∀ c ∈ blanks, isBlank c = true) (hne : constraint ≠ [])
    (hclosed : '\x7d' ∉ constraint) :
    dropConstraints 0 ('\x7b' :: (name ++ (blanks ++ ':' :: (constraint ++ '\x7d' :: rest)))) =
      '\x7b' :: (name ++ '\x7d' :: dropConstraints 0 rest) := by
  have hassoc : name ++ (blanks ++ ':' :: (constraint ++ '\x7d' :: rest)) =
      name ++ (blanks ++ ':' :: (constraint ++ ['\x7d'])) ++ rest := by simp
  rw [dropConstraints, constrained?_eq rest hname hblanks hne hclosed]
  simp only [Nat.lt_irrefl, if_false, Nat.add_sub_cancel, hassoc, dropConstraints_skip, List.cons_append]

theorem dropConstraints_char {c : Char} (hother : ¬ StartsConstrained (c :: rest)) :
    dropConstraints 0 (c :: rest) = c :: dropConstraints 0 rest := by
  have hnone : constrained? (c :: rest) = none :=
    Option.eq_none_iff_forall_ne_some.mpr fun _ hfound => hother (startsConstrained_of_constrained? hfound)
  rw [dropConstraints, hnone]
  rfl

end Passes

theorem braces_braceColons (text : List Char) : Braces text (braceColons 0 text) := by
  induction hlength : text.length using Nat.strong_induction_on generalizing text with
  | _ length ih =>
      by_cases hstarts : StartsColon text
      · obtain ⟨more, hc⟩ := hstarts
        rcases placeholderName_spec (_ :: more) with ⟨-, hstops⟩ | ⟨name, rest, hsplit, -, hname, hstops⟩
        · rw [hstops.head] at hc
          cases hc
        · rw [hsplit] at hlength ⊢
          rw [braceColons_placeholder hname hstops]
          refine .placeholder hname hstops (ih rest.length ?_ rest rfl)
          simp only [List.length_cons, List.length_append] at hlength
          omega
      · cases text with
        | nil => exact .nil
        | cons c rest =>
            rw [braceColons_char hstarts]
            refine .char hstarts (ih rest.length ?_ rest rfl)
            rw [← hlength]
            exact Nat.lt_succ_self _

theorem drops_dropConstraints (text : List Char) : Drops text (dropConstraints 0 text) := by
  induction hlength : text.length using Nat.strong_induction_on generalizing text with
  | _ length ih =>
      by_cases hstarts : StartsConstrained text
      · obtain ⟨rest, hname, hblanks, hne, hclosed⟩ := hstarts
        rw [dropConstraints_placeholder rest hname hblanks hne hclosed]
        refine .placeholder hname hblanks hne hclosed (ih rest.length ?_ rest rfl)
        simp only [List.length_cons, List.length_append] at hlength
        omega
      · cases text with
        | nil => exact .nil
        | cons c rest =>
            rw [dropConstraints_char hstarts]
            refine .char hstarts (ih rest.length ?_ rest rfl)
            rw [← hlength]
            exact Nat.lt_succ_self _

theorem merges_mergeSlashes (text : List Char) : Merges text (mergeSlashes text) := by
  fun_induction mergeSlashes text with
  | case1 rest ih => exact .slash ih
  | case2 c rest hother ih =>
      refine .char ?_ ih
      rintro ⟨more, hmore⟩
      obtain ⟨rfl, rfl⟩ := List.cons.inj hmore
      exact hother more rfl rfl
  | case3 => exact .nil

end DocCompiler.Route
