import DocCompiler.Proofs.Document.RouteSpelling

/-!
Paths whose placeholders have constraints with braces of their own. A constraint is taken to end at the
first closing brace, so what is left of a path has all its closing braces, and has lost the opening braces
of the constraints.
-/

namespace DocCompiler.Route

open Text

/-- Every brace in a text has a partner. -/
inductive Balanced : List Char → Prop
  | nil : Balanced []
  | char {c : Char} {rest : List Char} (hopening : c ≠ '\x7b') (hclosing : c ≠ '\x7d') (h : Balanced rest) :
      Balanced (c :: rest)
  | group {body rest : List Char} (hbody : Balanced body) (h : Balanced rest) :
      Balanced ('\x7b' :: (body ++ '\x7d' :: rest))

/-- A placeholder in braces, with its constraint if it has one. -/
structure Placeholder where
  name : List Char
  constraint : Option (List Char)

namespace Placeholder

/-- The constraint, if there is one, holds no braces. -/
def Flat (placeholder : Placeholder) : Prop :=
  ∀ constraint ∈ placeholder.constraint, '\x7b' ∉ constraint

/-- The placeholder without its constraint. -/
def bare (placeholder : Placeholder) : Placeholder :=
  ⟨placeholder.name, none⟩

end Placeholder

/-- A path with placeholders in braces. There are no colons outside of them, and the braces of their
constraints have partners. -/
inductive Templated : List Placeholder → List Char → Prop
  | nil : Templated [] []
  | char {placeholders : List Placeholder} {c : Char} {rest : List Char}
      (hc : c ≠ '\x7b' ∧ c ≠ '\x7d' ∧ c ≠ ':') (h : Templated placeholders rest) :
      Templated placeholders (c :: rest)
  | plain {placeholders : List Placeholder} {name rest : List Char} (hname : IsPlaceholderName name)
      (h : Templated placeholders rest) :
      Templated (⟨name, none⟩ :: placeholders) ('\x7b' :: (name ++ '\x7d' :: rest))
  | constrained {placeholders : List Placeholder} {name constraint rest : List Char}
      (hname : IsPlaceholderName name) (hne : constraint ≠ []) (hbalanced : Balanced constraint)
      (hslash : '/' ∉ constraint) (h : Templated placeholders rest) :
      Templated (⟨name, some constraint⟩ :: placeholders)
        ('\x7b' :: (name ++ ':' :: (constraint ++ '\x7d' :: rest)))

namespace Balanced

variable {text rest part : List Char}

theorem count_eq (h : Balanced text) : text.count '\x7b' = text.count '\x7d' := by
  induction h with
  | nil => rfl
  | char hopening hclosing _ ih => rw [List.count_cons_of_ne hopening, List.count_cons_of_ne hclosing, ih]
  | group _ _ hbody hrest =>
      simp only [List.count_cons, List.count_append, hbody, hrest]
      simp
      omega

theorem append (h : Balanced text) (hrest : Balanced rest) : Balanced (text ++ rest) := by
  induction h with
  | nil => exact hrest
  | char hopening hclosing _ ih => exact .char hopening hclosing ih
  | @group body more hbody _ _ ih => simpa using Balanced.group hbody ih

theorem of_notMem (hopening : '\x7b' ∉ text) (hclosing : '\x7d' ∉ text) : Balanced text := by
  induction text with
  | nil => exact .nil
  | cons c rest ih =>
      rw [List.mem_cons, not_or] at hopening hclosing
      exact .char (Ne.symm hopening.1) (Ne.symm hclosing.1) (ih hopening.2 hclosing.2)

theorem closing_notMem (h : Balanced text) (hflat : '\x7b' ∉ text) : '\x7d' ∉ text := by
  rw [← List.count_eq_zero] at hflat ⊢
  exact h.count_eq.symm.trans hflat

/-- In front of the first brace that closes there is one that opens. -/
theorem exists_opening (h : Balanced text) (hmem : '\x7b' ∈ text) :
    ∃ front rest, text = front ++ '\x7d' :: rest ∧ '\x7d' ∉ front ∧ '\x7b' ∈ front := by
  induction h with
  | nil => cases hmem
  | @char c _ hopening hclosing _ ih =>
      obtain ⟨front, rest, rfl, hclosed, hopened⟩ := ih (List.mem_of_ne_of_mem (Ne.symm hopening) hmem)
      exact ⟨c :: front, rest, rfl, by simp [hclosed, Ne.symm hclosing], List.mem_cons_of_mem c hopened⟩
  | @group body more _ _ _ _ =>
      have hclosing : '\x7d' ∈ body ++ '\x7d' :: more := by simp
      obtain ⟨front, rest, hsplit, hclosed⟩ := List.eq_append_cons_of_mem hclosing
      refine ⟨'\x7b' :: front, rest, ?_, by simp [hclosed], List.mem_cons_self⟩
      rw [hsplit, List.cons_append]

end Balanced

section Counts

variable {text out : List Char}

/-- A constraint is taken out with the braces that open in it; those that close stay in the path. -/
theorem Drops.count (h : Drops text out) :
    out.count '\x7d' = text.count '\x7d' ∧ out.count '\x7b' ≤ text.count '\x7b' := by
  induction h with
  | nil => exact ⟨rfl, le_rfl⟩
  | @placeholder name blanks constraint rest later hname hblanks _ hclosed _ ih =>
      have hblank (mark : Char) (hmark : isBlank mark = false) : mark ∉ blanks :=
        fun hmem => ne_of_isBlank (hblanks mark hmem) hmark rfl
      simp [List.count_eq_zero.mpr (hname.notMem '\x7b' rfl), List.count_eq_zero.mpr (hname.notMem '\x7d' rfl),
        List.count_eq_zero.mpr (hblank '\x7b' rfl), List.count_eq_zero.mpr (hblank '\x7d' rfl),
        List.count_eq_zero.mpr hclosed, ih.1]
      omega
  | @char c rest later _ _ ih =>
      rw [List.count_cons, List.count_cons, List.count_cons, List.count_cons, ih.1]
      exact ⟨rfl, Nat.add_le_add_right ih.2 _⟩

theorem count_mergeSlashes {c : Char} (hc : c ≠ '/') (text : List Char) :
    (mergeSlashes text).count c = text.count c := by
  fun_induction mergeSlashes text with
  | case1 rest ih => exact ih.trans (List.count_cons_of_ne hc.symm).symm
  | case2 d rest _ ih => rw [List.count_cons, List.count_cons, ih]
  | case3 => rfl

theorem count_dropLastSlash {c : Char} (hc : c ≠ '/') (text : List Char) :
    (dropLastSlash text).count c = text.count c := by
  rcases dropLastSlash_cases text with ⟨part, hpart, rfl⟩ | hlast
  · rw [dropLastSlash_append hpart, List.count_append, List.count_singleton, if_neg (by simpa using hc.symm)]
    rfl
  · rw [dropLastSlash_eq_self hlast]

end Counts

namespace Templated

variable {placeholders : List Placeholder} {text : List Char} {c : Char}

theorem head?_ne_colon (h : Templated placeholders text) : text.head? ≠ some ':' := by
  cases h with
  | nil | plain | constrained => exact nofun
  | char hc => exact fun hhead => hc.2.2 (Option.some.inj hhead)

theorem free_startsColon (h : Templated placeholders text) : Free StartsColon text := by
  have hgroup {group rest : List Char} (hslash : '/' ∉ group) (hrest : Free StartsColon rest) :
      Free StartsColon (group ++ rest) :=
    Free.append (fun _ => StartsColon.head?) hslash hrest
  induction h with
  | nil => exact .nil nofun
  | @char _ c rest hc h ih =>
      refine Free.cons_iff.mpr ⟨fun hstarts => h.head?_ne_colon ?_, ih⟩
      generalize htext : c :: rest = start at hstarts
      obtain ⟨more, -⟩ := hstarts
      rw [(List.cons.inj htext).2]
      rfl
  | @plain _ name rest hname _ ih =>
      have hslash : '/' ∉ '\x7b' :: (name ++ ['\x7d']) := by simp [hname.notMem '/' rfl]
      simpa using hgroup hslash ih
  | @constrained _ name constraint rest hname _ _ hslash _ ih =>
      have hslash : '/' ∉ '\x7b' :: (name ++ ':' :: (constraint ++ ['\x7d'])) := by
        simp [hname.notMem '/' rfl, hslash]
      simpa using hgroup hslash ih

theorem balanced (h : Templated placeholders text) : Balanced text := by
  have hname {name : List Char} (h : IsPlaceholderName name) : Balanced name :=
    .of_notMem (h.notMem '\x7b' rfl) (h.notMem '\x7d' rfl)
  induction h with
  | nil => exact .nil
  | char hc _ ih => exact .char hc.1 hc.2.1 ih
  | plain h _ ih => exact .group (hname h) ih
  | constrained h _ hbalanced _ _ ih =>
      simpa using Balanced.group ((hname h).append (.char (by decide) (by decide) hbalanced)) ih

/-- A last character that closes no placeholder can be cut. -/
theorem of_concat (h : Templated placeholders (text ++ [c])) (hc : c ≠ '\x7d') :
    Templated placeholders text := by
  -- A group that ends the text ends with the brace that closes it.
  have hrest {group rest text : List Char} (hsplit : group ++ '\x7d' :: rest = text ++ [c]) :
      ∃ front, rest = front ++ [c] ∧ text = group ++ '\x7d' :: front := by
    rcases List.eq_nil_or_concat' rest with rfl | ⟨front, last, rfl⟩
    · exact absurd (List.append_inj_right' hsplit rfl) (by simpa using hc.symm)
    · rw [← List.cons_append, ← List.append_assoc] at hsplit
      obtain ⟨hfront, hlast⟩ := List.append_inj' hsplit rfl
      exact ⟨front, by rw [hlast], hfront.symm⟩
  generalize hwhole : text ++ [c] = whole at h
  induction h generalizing text with
  | nil => simp at hwhole
  | @char _ d rest hd h ih =>
      cases text with
      | nil =>
          obtain ⟨-, rfl⟩ := List.cons.inj hwhole
          exact h
      | cons first text =>
          obtain ⟨rfl, hmore⟩ := List.cons.inj hwhole
          exact .char hd (ih hmore)
  | @plain _ name rest hname h ih =>
      rw [← List.cons_append] at hwhole
      obtain ⟨front, rfl, rfl⟩ := hrest hwhole.symm
      exact .plain hname (ih rfl)
  | @constrained _ name constraint rest hname hne hbalanced hslash h ih =>
      have hgroup : '\x7b' :: (name ++ ':' :: (constraint ++ '\x7d' :: rest)) =
          '\x7b' :: (name ++ ':' :: constraint) ++ '\x7d' :: rest := by simp
      rw [hgroup] at hwhole
      obtain ⟨front, rfl, rfl⟩ := hrest hwhole.symm
      simpa using Templated.constrained hname hne hbalanced hslash (ih rfl)

theorem trimStart (h : Templated placeholders text) : Templated placeholders (trimStart text) := by
  induction h with
  | nil => exact .nil
  | @char _ c rest hc h ih =>
      rw [Text.trimStart, List.dropWhile_cons]
      split_ifs
      · exact ih
      · exact .char hc h
  | plain hname h => exact .plain hname h
  | constrained hname hne hbalanced hslash h => exact .constrained hname hne hbalanced hslash h

theorem trimEnd (h : Templated placeholders text) : Templated placeholders (trimEnd text) := by
  induction text using List.reverseRecOn with
  | nil => exact h
  | append_singleton front c ih =>
      by_cases hblank : isBlank c = true
      · have hcut : Text.trimEnd (front ++ [c]) = Text.trimEnd front := by
          simp [Text.trimEnd, dropEndWhile, hblank]
        rw [hcut]
        exact ih (h.of_concat (ne_of_isBlank hblank rfl))
      · rwa [trimEnd_eq_self]
        rwa [endsBlank_concat]

theorem rooted (h : Templated placeholders text) : Templated placeholders (rooted text) := by
  rw [Route.rooted]
  split_ifs
  · exact h
  · exact .char (by decide) h

theorem mergeSlashes (h : Templated placeholders text) : Templated placeholders (mergeSlashes text) := by
  have hgroup (group rest : List Char) (hslash : '/' ∉ group) :
      Route.mergeSlashes (group ++ '\x7d' :: rest) = group ++ '\x7d' :: Route.mergeSlashes rest := by
    have hmark : '/' ∉ group ++ ['\x7d'] := by simp [hslash]
    simpa using @mergeSlashes_append _ rest hmark
  induction h with
  | nil => exact .nil
  | @char _ c rest hc h ih =>
      rw [Route.mergeSlashes.eq_def]
      split
      · next more hslash =>
        obtain ⟨-, rfl⟩ := List.cons.inj hslash
        exact ih
      · next d more _ hother =>
        obtain ⟨rfl, rfl⟩ := List.cons.inj hother
        exact .char hc ih
      · next hnil => cases hnil
  | @plain _ name rest hname _ ih =>
      have hmerged := hgroup ('\x7b' :: name) rest (by simp [hname.notMem '/' rfl])
      rw [List.cons_append] at hmerged
      rw [hmerged]
      exact .plain hname ih
  | @constrained _ name constraint rest hname hne hbalanced hslash _ ih =>
      have hmerged := hgroup ('\x7b' :: (name ++ ':' :: constraint)) rest
        (by simp [hname.notMem '/' rfl, hslash])
      simp only [List.cons_append, List.append_assoc] at hmerged
      rw [hmerged]
      exact .constrained hname hne hbalanced hslash ih

theorem dropLastSlash (h : Templated placeholders text) : Templated placeholders (dropLastSlash text) := by
  rcases dropLastSlash_cases text with ⟨part, hpart, rfl⟩ | hlast
  · rw [dropLastSlash_append hpart]
    exact h.of_concat (by decide)
  · rwa [dropLastSlash_eq_self hlast]

/-- Constraints without braces are taken out, and nothing else is. -/
theorem dropConstraints (h : Templated placeholders text) (hflat : ∀ placeholder ∈ placeholders, placeholder.Flat) :
    Templated (placeholders.map Placeholder.bare) (dropConstraints 0 text) := by
  induction h with
  | nil => exact .nil
  | @char _ c rest hc _ ih =>
      rw [dropConstraints_char fun hstarts => hc.1 (Option.some.inj hstarts.head?)]
      exact .char hc (ih hflat)
  | plain hname _ ih =>
      rw [dropConstraints_braces hname]
      exact .plain hname (ih (List.forall_mem_cons.mp hflat).2)
  | @constrained _ name constraint rest hname hne hbalanced hslash _ ih =>
      obtain ⟨hfirst, hlater⟩ := List.forall_mem_cons.mp hflat
      have hclosed : '\x7d' ∉ constraint := hbalanced.closing_notMem (hfirst constraint rfl)
      have hdropped := dropConstraints_placeholder rest hname (List.forall_mem_nil _) hne hclosed
      rw [List.nil_append] at hdropped
      rw [hdropped]
      exact .plain hname (ih hlater)

/-- From a constraint with braces one that opens is lost. -/
theorem count_dropConstraints_lt (h : Templated placeholders text)
    (hnested : ∃ placeholder ∈ placeholders, ¬ placeholder.Flat) :
    (Route.dropConstraints 0 text).count '\x7b' < text.count '\x7b' := by
  induction h with
  | nil => obtain ⟨_, ⟨⟩, _⟩ := hnested
  | @char _ c rest hc _ ih =>
      rw [dropConstraints_char fun hstarts => hc.1 (Option.some.inj hstarts.head?),
        List.count_cons_of_ne hc.1, List.count_cons_of_ne hc.1]
      exact ih hnested
  | @plain placeholders name rest hname _ ih =>
      have hlater : ∃ placeholder ∈ placeholders, ¬ placeholder.Flat := by
        simpa [Placeholder.Flat] using hnested
      rw [dropConstraints_braces hname]
      simp [ih hlater]
  | @constrained placeholders name constraint rest hname hne hbalanced _ _ ih =>
      by_cases hopening : '\x7b' ∈ constraint
      · -- What follows the first closing brace is read as if it were not part of the placeholder.
        obtain ⟨front, behind, rfl, hclosed, hopened⟩ := hbalanced.exists_opening hopening
        have hdropped := dropConstraints_placeholder (behind ++ '\x7d' :: rest) hname (List.forall_mem_nil _)
          (List.ne_nil_of_mem hopened) hclosed
        have hle := (drops_dropConstraints (behind ++ '\x7d' :: rest)).count.2
        have hlost := List.count_pos_iff.mpr hopened
        simp only [List.nil_append] at hdropped
        rw [List.append_assoc, List.cons_append, hdropped]
        simp only [List.count_cons, List.count_append] at hle ⊢
        simp at hle ⊢
        omega
      · have hclosed : '\x7d' ∉ constraint := hbalanced.closing_notMem hopening
        have hlater : ∃ placeholder ∈ placeholders, ¬ placeholder.Flat := by
          simpa [Placeholder.Flat, hopening] using hnested
        have hdropped := dropConstraints_placeholder rest hname (List.forall_mem_nil _) hne hclosed
        rw [List.nil_append] at hdropped
        rw [hdropped]
        have hlt := ih hlater
        simp [List.count_eq_zero.mpr hopening]
        omega

theorem placeholderChars_eq (h : Templated placeholders text)
    (hbare : ∀ placeholder ∈ placeholders, placeholder.constraint = none) :
    placeholderChars text = placeholders.map Placeholder.name := by
  have hskip (part rest : List Char) (hpart : '\x7b' ∉ part) :
      placeholderChars (part ++ rest) = placeholderChars rest := by
    induction part with
    | nil => rfl
    | cons c part ih =>
        rw [List.mem_cons, not_or] at hpart
        rw [List.cons_append, placeholderChars, ih hpart.2, placeholder?]
        · rfl
        · rintro more ⟨⟩
          exact hpart.1 rfl
  induction h with
  | nil => rfl
  | @char _ c rest hc _ ih =>
      exact (hskip [c] rest (by simpa using hc.1.symm)).trans (ih hbare)
  | @plain _ name rest hname _ ih =>
      have htaken : (name ++ '\x7d' :: rest).takeWhile
          (fun c => c != '\x7b' && c != '\x7d' && c != '/') = name := by
        refine takeWhile_append_of_stops (fun c hc => ?_) (.cons (by decide))
        have hother (mark : Char) (hmark : isNameChar mark = false) : c ≠ mark :=
          ne_of_isNameChar (hname.isNameChar c hc) hmark
        simp [hother '\x7b' rfl, hother '\x7d' rfl, hother '/' rfl]
      have hfound : placeholder? ('\x7b' :: (name ++ '\x7d' :: rest)) = some name := by
        simp [placeholder?, htaken, hname.ne_nil]
      have hrest := hskip (name ++ ['\x7d']) rest (by simp [hname.notMem '\x7b' rfl])
      rw [List.append_assoc, List.singleton_append] at hrest
      rw [placeholderChars, hfound, hrest, ih (List.forall_mem_cons.mp hbare).2]
      rfl
  | constrained => cases (List.forall_mem_cons.mp hbare).1

/-- A path with placeholders in braces loses their constraints, and slashes that stand side by side. -/
theorem normalizeChars_eq (h : Templated placeholders text) :
    normalizeChars text =
      Route.dropLastSlash (Route.mergeSlashes (Route.dropConstraints 0 (Route.rooted (trim text)))) := by
  rw [normalizeChars, trim, braceColons_eq_self h.trimStart.trimEnd.rooted.free_startsColon]

end Templated

/-- The braces of a path have partners in its canonical form exactly when no constraint holds braces, and
then its placeholders are the same, in order. -/
theorem normalize_constraints {slots : List Placeholder} {path : String} (h : Templated slots path.toList) :
    (Balanced (normalize path).toList ↔ ∀ slot ∈ slots, slot.Flat) ∧
      ((∀ slot ∈ slots, slot.Flat) →
        placeholders (normalize path) = slots.map fun slot => String.ofList slot.name) := by
  have hrooted : Templated slots (rooted (trim path.toList)) := h.trimStart.trimEnd.rooted
  have hchars : (normalize path).toList = normalizeChars path.toList := String.toList_ofList
  have hkept (hflat : ∀ slot ∈ slots, slot.Flat) :
      Templated (slots.map Placeholder.bare) (normalize path).toList := by
    rw [hchars, h.normalizeChars_eq]
    exact (hrooted.dropConstraints hflat).mergeSlashes.dropLastSlash
  refine ⟨⟨fun hbalanced => ?_, fun hflat => (hkept hflat).balanced⟩, fun hflat => ?_⟩
  · by_contra hnested
    push Not at hnested
    have hlost := hrooted.count_dropConstraints_lt hnested
    have hclosing := (drops_dropConstraints (rooted (trim path.toList))).count.1
    have hcount := hbalanced.count_eq
    rw [hchars, h.normalizeChars_eq, count_dropLastSlash (by decide), count_dropLastSlash (by decide),
      count_mergeSlashes (by decide), count_mergeSlashes (by decide), hclosing, ← hrooted.balanced.count_eq]
      at hcount
    omega
  · rw [placeholders, (hkept hflat).placeholderChars_eq (List.forall_mem_map.mpr fun _ _ => rfl),
      List.map_map, List.map_map]
    rfl

/-- Characters that are no braces and no colons stand for themselves. -/
theorem Templated.literal {placeholders : List Placeholder} {part rest : List Char}
    (hpart : part.Forall fun c => c ≠ '\x7b' ∧ c ≠ '\x7d' ∧ c ≠ ':') (h : Templated placeholders rest) :
    Templated placeholders (part ++ rest) := by
  induction part with
  | nil => exact h
  | cons c part ih =>
      rw [List.forall_cons] at hpart
      exact .char hpart.1 (ih hpart.2)

namespace Orders

/-- The placeholder for the number of an order. -/
def slot (constraint : String) : Placeholder :=
  ⟨['i', 'd'], some constraint.toList⟩

/-- The path of an order, with a constraint for its number. -/
def path (constraint : String) : String :=
  String.ofList ("/orders/".toList ++
    '\x7b' :: (['i', 'd'] ++ ':' :: (constraint.toList ++ ['\x7d'])))

theorem toList_path (constraint : String) : (path constraint).toList =
    "/orders/".toList ++ '\x7b' :: (['i', 'd'] ++ ':' :: (constraint.toList ++ ['\x7d'])) :=
  String.toList_ofList

theorem templated {constraint : String} (hne : constraint.toList ≠ []) (hbalanced : Balanced constraint.toList)
    (hslash : '/' ∉ constraint.toList) : Templated [slot constraint] (path constraint).toList := by
  have hid : IsPlaceholderName ['i', 'd'] := .intro rfl (List.all_eq_true.mp rfl)
  rw [toList_path]
  exact (Templated.constrained hid hne hbalanced hslash .nil).literal (by decide +kernel)

end Orders

/-- A constraint without braces is taken out as a whole. -/
theorem normalize_constraints_flat :
    Templated [Orders.slot "\\d+"] (Orders.path "\\d+").toList ∧
      (Balanced (normalize (Orders.path "\\d+")).toList ↔ ∀ slot ∈ [Orders.slot "\\d+"], slot.Flat) ∧
        ((∀ slot ∈ [Orders.slot "\\d+"], slot.Flat) → placeholders (normalize (Orders.path "\\d+")) = ["id"]) := by
  have htemplated : Templated [Orders.slot "\\d+"] (Orders.path "\\d+").toList :=
    Orders.templated (by decide) (.of_notMem (by decide) (by decide)) (by decide)
  exact ⟨htemplated, normalize_constraints htemplated⟩

/-- From a constraint with braces the end stays in the path, and what looks like a placeholder there is
taken for one. -/
theorem normalize_nested_constraint :
    Templated [Orders.slot "[0-9]\x7b2\x7d-[0-9]\x7b4\x7d"] (Orders.path "[0-9]\x7b2\x7d-[0-9]\x7b4\x7d").toList ∧
      normalize (Orders.path "[0-9]\x7b2\x7d-[0-9]\x7b4\x7d") = "/orders/\x7bid\x7d-[0-9]\x7b4\x7d\x7d" ∧
        ¬ Balanced (normalize (Orders.path "[0-9]\x7b2\x7d-[0-9]\x7b4\x7d")).toList ∧
          placeholders (normalize (Orders.path "[0-9]\x7b2\x7d-[0-9]\x7b4\x7d")) = ["id", "4"] := by
  have hnormal : normalize (Orders.path "[0-9]\x7b2\x7d-[0-9]\x7b4\x7d") = "/orders/\x7bid\x7d-[0-9]\x7b4\x7d\x7d" := by
    decide +kernel
  have hconstraint : Balanced "[0-9]\x7b2\x7d-[0-9]\x7b4\x7d".toList := by
    have hdigits (count : Char) (hopening : count ≠ '\x7b') (hclosing : count ≠ '\x7d') :
        Balanced ("[0-9]".toList ++ '\x7b' :: ([count] ++ '\x7d' :: [])) :=
      (Balanced.of_notMem (by decide) (by decide)).append (.group (.char hopening hclosing .nil) .nil)
    exact (hdigits '2' (by decide) (by decide)).append
      (.char (c := '-') (by decide) (by decide) (hdigits '4' (by decide) (by decide)))
  refine ⟨Orders.templated (by decide) hconstraint (by decide), hnormal, fun hbalanced => ?_, ?_⟩
  · rw [hnormal] at hbalanced
    exact absurd hbalanced.count_eq (by decide)
  · rw [hnormal]
    decide +kernel

end DocCompiler.Route
