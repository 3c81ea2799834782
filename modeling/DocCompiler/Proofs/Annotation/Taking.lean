import DocCompiler.Proofs.Annotation.Position
import Mathlib.Data.List.Basic

/-!
What a reader takes of a text. A reader that starts in a text goes forward over a part of it and ends in
it; when it fails, it fails at an offset of the text, or at a run of digits in it that is too long.
-/

namespace DocCompiler.Annotation

open Text

section Words

variable {first second text : List Char}

theorem append_isPrefix_of_drop (hfirst : first <+: text) (hsecond : second <+: text.drop first.length) :
    first ++ second <+: text := by
  obtain ⟨rest, rfl⟩ := hfirst
  rw [List.drop_left] at hsecond
  exact List.prefix_append_right_inj first |>.mpr hsecond

theorem simpleName_isPrefix (text : List Char) : simpleName text <+: text := by
  cases text with
  | nil => exact List.nil_prefix
  | cons c rest =>
      rw [simpleName]
      split
      · exact List.cons_prefix_cons.mpr ⟨rfl, List.takeWhile_prefix _⟩
      · exact List.nil_prefix

theorem namespaceMark_isPrefix (text : List Char) : namespaceMark text <+: text := by
  unfold namespaceMark
  split
  · exact List.cons_prefix_cons.mpr ⟨rfl, List.nil_prefix⟩
  · exact List.nil_prefix

theorem memberMark_isPrefix (text : List Char) : memberMark text <+: text := by
  unfold memberMark
  split
  · exact List.cons_prefix_cons.mpr ⟨rfl, List.cons_prefix_cons.mpr ⟨rfl, List.nil_prefix⟩⟩
  · exact List.cons_prefix_cons.mpr ⟨rfl, List.nil_prefix⟩
  · exact List.nil_prefix

theorem signMark_isPrefix (text : List Char) : signMark text <+: text := by
  unfold signMark
  split
  · exact List.cons_prefix_cons.mpr ⟨rfl, List.nil_prefix⟩
  · exact List.cons_prefix_cons.mpr ⟨rfl, List.nil_prefix⟩
  · exact List.nil_prefix

theorem furtherNames_isPrefix {separator : List Char → List Char}
    (hseparator : ∀ text, separator text <+: text) (fuel : Nat) (text : List Char) :
    furtherNames separator fuel text <+: text := by
  induction fuel generalizing text with
  | zero => exact List.nil_prefix
  | succ fuel ih =>
      rw [furtherNames]
      dsimp only
      split
      · exact List.nil_prefix
      · exact List.nil_prefix
      · exact append_isPrefix_of_drop
          (append_isPrefix_of_drop (hseparator text) (simpleName_isPrefix _)) (ih _)

theorem identifier_isPrefix (text : List Char) : identifier text <+: text := by
  rw [identifier]
  dsimp only
  split
  · exact List.nil_prefix
  · rename_i c rest hrest
    split
    · refine append_isPrefix_of_drop ?_ (furtherNames_isPrefix memberMark_isPrefix _ _)
      refine append_isPrefix_of_drop (namespaceMark_isPrefix text) ?_
      rw [hrest]
      exact List.cons_prefix_cons.mpr ⟨rfl, List.takeWhile_prefix _⟩
    · exact List.nil_prefix

theorem mantissa_isPrefix (text : List Char) : mantissa text <+: text := by
  rw [mantissa]
  dsimp only
  split
  · rename_i rest hrest
    split
    · exact List.nil_prefix
    · refine append_isPrefix_of_drop (List.takeWhile_prefix _) ?_
      rw [hrest]
      exact List.cons_prefix_cons.mpr ⟨rfl, List.takeWhile_prefix _⟩
  · exact List.takeWhile_prefix _

theorem exponent_isPrefix (text : List Char) : exponent text <+: text := by
  cases text with
  | nil => exact List.nil_prefix
  | cons c rest =>
      rw [exponent]
      dsimp only
      split
      · split
        · exact List.nil_prefix
        · rw [List.cons_append]
          refine List.cons_prefix_cons.mpr ⟨rfl, ?_⟩
          exact append_isPrefix_of_drop (signMark_isPrefix rest) (List.takeWhile_prefix _)
      · exact List.nil_prefix

theorem numeral_isPrefix (text : List Char) : numeral text <+: text := by
  rw [numeral]
  dsimp only
  split
  · exact List.nil_prefix
  · exact append_isPrefix_of_drop
      (append_isPrefix_of_drop (signMark_isPrefix text) (mantissa_isPrefix _)) (exponent_isPrefix _)

/-- The body of a text in quotes stands at the start of the text, with its closing quote. -/
theorem stringBody_le {body : List Char} {used : Nat} (h : stringBody text = some (body, used)) :
    0 < used ∧ used ≤ text.length := by
  fun_induction stringBody text generalizing body used with
  | case1 => cases h
  | case5 =>
      obtain ⟨-, rfl⟩ := Prod.mk.inj (Option.some.inj h)
      simp
  | case2 rest ih | case3 rest ih | case4 rest ih =>
      obtain ⟨⟨inner, count⟩, hinner, heq⟩ := Option.map_eq_some_iff.mp h
      obtain ⟨-, rfl⟩ := Prod.mk.inj heq
      have hle := ih hinner
      simp only [List.length_cons]
      omega
  | case6 c rest _ _ _ _ ih =>
      obtain ⟨⟨inner, count⟩, hinner, heq⟩ := Option.map_eq_some_iff.mp h
      obtain ⟨-, rfl⟩ := Prod.mk.inj heq
      have hle := ih hinner
      simp only [List.length_cons]
      omega

end Words

/-- Characters from a cursor to a later one. -/
structure Cursor.Passes (cursor later : Cursor) (part : List Char) : Prop where
  rest : cursor.rest = part ++ later.rest
  offset : later.offset = cursor.offset + part.length

/-- A cursor stands in a text, no further than at its end. -/
structure Cursor.Inside (text : List Char) (cursor : Cursor) : Prop where
  within : cursor.Within text
  le : cursor.offset ≤ text.length

namespace Cursor.Passes

variable {text part more : List Char} {cursor later last : Cursor}

theorem refl (cursor : Cursor) : cursor.Passes cursor [] :=
  ⟨rfl, rfl⟩

theorem trans (h : cursor.Passes later part) (hlater : later.Passes last more) :
    cursor.Passes last (part ++ more) := by
  refine ⟨by rw [h.rest, hlater.rest, List.append_assoc], ?_⟩
  rw [hlater.offset, h.offset, List.length_append, Nat.add_assoc]

theorem of_isPrefix (h : part <+: cursor.rest) : cursor.Passes (cursor.advance part.length) part := by
  obtain ⟨rest, hrest⟩ := h
  refine ⟨?_, rfl⟩
  rw [Cursor.advance, ← hrest, List.drop_left]

theorem skipWhile (cursor : Cursor) (test : Char → Bool) :
    cursor.Passes (cursor.skipWhile test) (cursor.rest.takeWhile test) :=
  of_isPrefix (List.takeWhile_prefix test)

theorem skipBlanks (cursor : Cursor) :
    ∃ blanks, (∀ c ∈ blanks, isBlank c = true) ∧ cursor.Passes cursor.skipBlanks blanks :=
  ⟨_, List.all_eq_true.mp List.all_takeWhile, skipWhile cursor isBlank⟩

theorem skipInlineBlanks (cursor : Cursor) :
    ∃ blanks, (∀ c ∈ blanks, isInlineBlank c = true) ∧ cursor.Passes cursor.skipInlineBlanks blanks :=
  ⟨_, List.all_eq_true.mp List.all_takeWhile, skipWhile cursor isInlineBlank⟩

theorem advance_one {c : Char} (h : cursor.peek? = some c) : cursor.Passes (cursor.advance 1) [c] := by
  obtain ⟨rest, hrest⟩ := List.head?_eq_some_iff.mp h
  exact of_isPrefix (hrest ▸ List.cons_prefix_cons.mpr ⟨rfl, List.nil_prefix⟩)

/-- A name with an equals sign behind it, and the blanks around the sign. -/
theorem named {name : List Char} (hname : name <+: cursor.rest)
    (hequals : (cursor.advance name.length).skipBlanks.peek? = some '=') :
    ∃ before after, (∀ c ∈ before, isBlank c = true) ∧ (∀ c ∈ after, isBlank c = true) ∧
      cursor.Passes ((cursor.advance name.length).skipBlanks.advance 1).skipBlanks
        (name ++ (before ++ '=' :: after)) := by
  obtain ⟨before, hbefore, hskip⟩ := skipBlanks (cursor.advance name.length)
  obtain ⟨after, hafter, hlast⟩ := skipBlanks ((cursor.advance name.length).skipBlanks.advance 1)
  exact ⟨before, after, hbefore, hafter,
    (of_isPrefix hname).trans (hskip.trans ((advance_one hequals).trans hlast))⟩

theorem inside (h : cursor.Passes later part) (hcursor : cursor.Inside text) : later.Inside text := by
  have hrest : text.drop cursor.offset = part ++ later.rest := hcursor.within ▸ h.rest
  have hlength := congrArg List.length hrest
  rw [List.length_drop, List.length_append] at hlength
  have hle := hcursor.le
  refine ⟨?_, by rw [h.offset]; omega⟩
  rw [Within, h.offset, ← List.drop_drop, hrest, List.drop_left]

end Cursor.Passes

theorem Cursor.stops_skipBlanks (cursor : Cursor) : Stops isBlank cursor.skipBlanks.rest := by
  rw [Cursor.skipBlanks, Cursor.skipWhile_rest]
  exact stops_dropWhile isBlank cursor.rest

/-- What a run of a reader gives: it goes over a part of the text, notes some faults, and finds something
of which a condition holds with both; or it stops for a reason that is admitted. -/
inductive Consumes {α : Type} (stops : Stop → Prop) (state : ReadState)
    (post : α → List Char → List (Issue × Nat) → Prop) : Except Stop (α × ReadState) → Prop
  | ok {found : α} {later : ReadState} {part : List Char} {noted : List (Issue × Nat)}
      (hpart : state.cursor.Passes later.cursor part)
      (hnoted : later.problems = state.problems ++ noted) (h : post found part noted) :
      Consumes stops state post (.ok (found, later))
  | error {stop : Stop} (h : stops stop) : Consumes stops state post (.error stop)

namespace Consumes

variable {α β : Type} {stops : Stop → Prop} {state : ReadState}
  {post : α → List Char → List (Issue × Nat) → Prop} {result : Except Stop (α × ReadState)}

theorem pure {found : α} (h : post found [] []) : Consumes stops state post (.ok (found, state)) :=
  .ok (.refl _) (List.append_nil _).symm h

theorem imp {post' : α → List Char → List (Issue × Nat) → Prop} (h : Consumes stops state post result)
    (himp : ∀ found part noted, post found part noted → post' found part noted) :
    Consumes stops state post' result := by
  cases h with
  | ok hpart hnoted h => exact .ok hpart hnoted (himp _ _ _ h)
  | error h => exact .error h

/-- A run that starts behind some characters. -/
theorem behind {cursor : Cursor} {lead : List Char} (hlead : state.cursor.Passes cursor lead)
    (h : Consumes stops { state with cursor } (fun found part noted => post found (lead ++ part) noted)
      result) : Consumes stops state post result := by
  cases h with
  | ok hpart hnoted h => exact .ok (hlead.trans hpart) hnoted h
  | error h => exact .error h

/-- A run with a fault noted before. -/
theorem noted {fault : Issue × Nat}
    (h : Consumes stops { state with problems := state.problems ++ [fault] }
      (fun found part noted => post found part (fault :: noted)) result) :
    Consumes stops state post result := by
  cases h with
  | ok hpart hnoted h => exact .ok hpart (by rw [hnoted, List.append_assoc, List.singleton_append]) h
  | error h => exact .error h

/-- One run after the other. -/
theorem bind {post' : β → List Char → List (Issue × Nat) → Prop} {reader : Reader α}
    {next : α → Reader β} (h : Consumes stops state post (reader.run state))
    (hnext : ∀ found later part noted, state.cursor.Passes later.cursor part → post found part noted →
      Consumes stops later (fun result more others => post' result (part ++ more) (noted ++ others))
        ((next found).run later)) :
    Consumes stops state post' ((reader >>= next).run state) := by
  rw [StateT.run_bind]
  generalize reader.run state = result at h
  cases h with
  | error h => exact .error h
  | @ok found later part noted hpart hnoted h =>
      change Consumes stops state post' ((next found).run later)
      have hlater := hnext found later part noted hpart h
      generalize (next found).run later = result at hlater
      cases hlater with
      | error h => exact .error h
      | ok hmore hothers h =>
          refine .ok (hpart.trans hmore) ?_ h
          rw [hothers, hnoted, List.append_assoc]

end Consumes

end DocCompiler.Annotation
