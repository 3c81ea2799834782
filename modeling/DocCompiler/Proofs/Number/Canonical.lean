import DocCompiler.Number.Basic
import DocCompiler.Proofs.Number.Shortest

/-!
Numbers in canonical form, and their texts: different numbers in canonical form have different texts.
-/

namespace DocCompiler

/-- A double-precision number in canonical form: a finite significand is below `2 ^ 53`, and it is at least
`2 ^ 52` unless the exponent is the smallest one. -/
def Binary64.Canonical : Binary64 → Prop
  | .finite _ significand exponent =>
      significand < 2 ^ 53 ∧ minExponent ≤ exponent ∧ exponent ≤ maxExponent ∧
        (2 ^ 52 ≤ significand ∨ exponent = minExponent)
  | _ => True

instance : DecidablePred Binary64.Canonical
  | .finite _ _ _ => inferInstanceAs (Decidable (_ ∧ _ ∧ _ ∧ _))
  | .nan | .infinite _ => .isTrue trivial

/-- A number in canonical form. -/
def Number.Canonical : Number → Prop
  | .int _ => True
  | .float value => value.Canonical

instance : DecidablePred Number.Canonical
  | .int _ => .isTrue trivial
  | .float value => inferInstanceAs (Decidable value.Canonical)

namespace Binary64

theorem Canonical.ordinary {negative : Bool} {significand : Nat} {exponent : Int}
    (h : (finite negative significand exponent).Canonical) (hpos : significand ≠ 0) :
    Ordinary significand exponent :=
  ⟨Nat.pos_of_ne_zero hpos, h.1, h.2.1, h.2.2.2⟩

/-- The text of a finite number without its sign. -/
def unsignedText (significand : Nat) (exponent : Int) : List Char :=
  if significand = 0 then ['0', '.', '0'] else (shortest significand exponent).text

theorem text_finite (negative : Bool) (significand : Nat) (exponent : Int) :
    (finite negative significand exponent).text.toList =
      if negative then '-' :: unsignedText significand exponent else unsignedText significand exponent :=
  String.toList_ofList

theorem layout_unsignedText (significand : Nat) (exponent : Int) :
    Decimal.Layout (unsignedText significand exponent) := by
  rw [unsignedText]
  split_ifs
  · exact @Decimal.Layout.fixed '0' [] ['0'] (by decide) (by simp)
      (List.all_iff_forall_prop.mp (by decide))
  · refine Decimal.layout_text ?_
    rw [shortest]
    split
    · exact List.all_iff_forall_prop.mp (by decide)
    · intro c hc
      rw [List.mem_reverse] at hc
      have hmem := List.mem_reverse.mp ((List.dropWhile_sublist _).subset hc)
      exact Nat.isDigit_of_mem_toDigits (by decide) (by decide) hmem

/-- The text of a finite number: digits, points, exponents and signs, and not only digits. -/
theorem text_finite_chars (negative : Bool) (significand : Nat) (exponent : Int) :
    let text := (finite negative significand exponent).text.toList
    (∃ c rest, text = c :: rest ∧ (c.isDigit = true ∨ c = '-')) ∧
      (∀ c ∈ text, isDecimalChar c = true) ∧ ('.' ∈ text ∨ 'e' ∈ text) := by
  have hlayout := layout_unsignedText significand exponent
  obtain ⟨c, rest, hcons, hc⟩ := hlayout.exists_cons
  dsimp only
  rw [text_finite]
  cases negative with
  | false => exact ⟨⟨c, rest, hcons, .inl hc⟩, hlayout.isDecimalChar, hlayout.point_or_exponent⟩
  | true =>
      refine ⟨⟨'-', _, rfl, .inr rfl⟩, List.forall_mem_cons.mpr ⟨by decide, hlayout.isDecimalChar⟩, ?_⟩
      exact hlayout.point_or_exponent.imp (List.mem_cons_of_mem _) (List.mem_cons_of_mem _)

/-- A number that is not zero shows a digit that is not zero. -/
theorem text_ne_zero {d : Decimal} (h : d.Normal) : d.text ≠ ['0', '.', '0'] := by
  intro htext
  have hshown := Decimal.shown_text h
  rw [htext] at hshown
  exact h.ne_nil (congrArg Decimal.digits hshown).symm

theorem unsignedText_injective {significand other : Nat} {exponent exponent' : Int} {sign sign' : Bool}
    (h : (finite sign significand exponent).Canonical) (h' : (finite sign' other exponent').Canonical)
    (htext : unsignedText significand exponent = unsignedText other exponent') :
    significand = other ∧ exponent = exponent' := by
  rw [unsignedText, unsignedText] at htext
  split_ifs at htext with hzero hzero' hzero'
  · obtain rfl := hzero
    obtain rfl := hzero'
    have hleast {e : Int} {s : Bool} (h : (finite s 0 e).Canonical) : e = minExponent :=
      h.2.2.2.resolve_left (by decide)
    exact ⟨rfl, (hleast h).trans (hleast h').symm⟩
  · exact absurd htext.symm (text_ne_zero (shortest_spec (h'.ordinary hzero')).1)
  · exact absurd htext (text_ne_zero (shortest_spec (h.ordinary hzero)).1)
  · obtain ⟨hnormal, hwithin⟩ := shortest_spec (h.ordinary hzero)
    obtain ⟨hnormal', hwithin'⟩ := shortest_spec (h'.ordinary hzero')
    rw [Decimal.text_injective hnormal hnormal' htext] at hwithin
    exact within_unique (h.ordinary hzero) (h'.ordinary hzero') hwithin hwithin'

/-- Different finite numbers have different texts. -/
theorem text_injective {sign sign' : Bool} {significand other : Nat} {exponent exponent' : Int}
    (h : (finite sign significand exponent).Canonical) (h' : (finite sign' other exponent').Canonical)
    (htext : (finite sign significand exponent).text = (finite sign' other exponent').text) :
    finite sign significand exponent = finite sign' other exponent' := by
  have hchars := congrArg String.toList htext
  rw [text_finite, text_finite] at hchars
  have hsign (significand : Nat) (exponent : Int) (rest : List Char) :
      unsignedText significand exponent ≠ '-' :: rest := by
    obtain ⟨c, more, hcons, hc⟩ := (layout_unsignedText significand exponent).exists_cons
    rw [hcons, Ne, List.cons.injEq, not_and]
    rintro rfl
    exact absurd hc (by decide)
  have hsame : sign = sign' ∧ unsignedText significand exponent = unsignedText other exponent' := by
    cases sign <;> cases sign'
    · exact ⟨rfl, hchars⟩
    · exact absurd hchars (hsign _ _ _)
    · exact absurd hchars.symm (hsign _ _ _)
    · exact ⟨rfl, (List.cons.inj hchars).2⟩
  obtain ⟨rfl, rfl⟩ := unsignedText_injective h h' hsame.2
  rw [hsame.1]

end Binary64

end DocCompiler
