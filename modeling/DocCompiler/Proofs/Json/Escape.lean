import Mathlib.Data.List.Basic
import Mathlib.Tactic.IntervalCases
import Mathlib.Tactic.SplitIfs
import DocCompiler.Json.Reader
import DocCompiler.Json.Writer

/-!
Texts in JSON. What is written for a text without characters beyond ASCII is read back as that text, so
different texts are written differently. Code points that are no characters are read back unless two of
them, one behind the other, make a pair.
-/

namespace DocCompiler.Json

open Text

theorem hexValue?_digitChar {digit : Nat} (h : digit < 16) : hexValue? digit.digitChar = some digit := by
  interval_cases digit <;> decide

theorem hexPadded_succ {width : Nat} (hwidth : 0 < width) (code : Nat) :
    hexPadded (width + 1) code = hexPadded width (code / 16) ++ [(code % 16).digitChar] := by
  obtain ⟨width, rfl⟩ := Nat.exists_eq_succ_of_ne_zero (Nat.ne_of_gt hwidth)
  by_cases h : code < 16
  · simp only [hexPadded, Nat.toDigits_of_lt_base h, Nat.div_eq_of_lt h, Nat.mod_eq_of_lt h,
      Nat.toDigits_zero, List.length_singleton, Nat.succ_eq_add_one, Nat.add_sub_cancel,
      List.replicate_succ']
  · simp only [hexPadded, Nat.toDigits_of_base_le (by decide : 1 < 16) (Nat.le_of_not_lt h),
      List.length_append, List.length_singleton, Nat.add_sub_add_right, List.append_assoc]

/-- The four digits of a code in base 16. -/
theorem hexPadded_four {code : Nat} (h : code < 0x10000) :
    hexPadded 4 code = [(code / 4096).digitChar, (code / 256 % 16).digitChar, (code / 16 % 16).digitChar,
      (code % 16).digitChar] := by
  have hone (n : Nat) (hn : n < 16) : hexPadded 1 n = [n.digitChar] := by
    simp [hexPadded, Nat.toDigits_of_lt_base hn]
  rw [hexPadded_succ (by decide), hexPadded_succ (by decide), hexPadded_succ (by decide), hone _ (by omega)]
  simp only [Nat.div_div_eq_div_mul, List.cons_append, List.nil_append]

theorem readUnit_hexPadded {code : Nat} (h : code < 0x10000) (rest : List Char) :
    readUnit (hexPadded 4 code ++ rest) = some (code, rest) := by
  rw [hexPadded_four h]
  simp only [List.cons_append, List.nil_append, readUnit]
  rw [hexValue?_digitChar (by omega), hexValue?_digitChar (by omega), hexValue?_digitChar (by omega),
    hexValue?_digitChar (by omega)]
  simp only [Option.bind_eq_bind, Option.bind_some, pure, Option.some.injEq, Prod.mk.injEq, and_true]
  omega

/-- What is escaped is read back. -/
theorem readEscape_escapeUnit {code : Nat} (h : code < 0xD800 ∨ 0xDC00 ≤ code ∧ code < 0x10000)
    (rest : List Char) :
    readEscape ('u' :: (hexPadded 4 code ++ rest)) = some (code, rest) := by
  rw [readEscape, readUnit_hexPadded (by omega)]
  simp only [Option.bind_eq_bind, Option.bind_some]
  rw [if_pos (by omega)]
  rfl

theorem readEscape_pair {high low : Nat} (hhigh : 0xD800 ≤ high ∧ high < 0xDC00)
    (hlow : 0xDC00 ≤ low ∧ low < 0xE000) (rest : List Char) :
    readEscape ('u' :: (hexPadded 4 high ++ (escapeUnit low ++ rest))) =
      some (0x10000 + (high - 0xD800) * 0x400 + (low - 0xDC00), rest) := by
  rw [readEscape, readUnit_hexPadded (by omega)]
  simp only [Option.bind_eq_bind, Option.bind_some, escapeUnit, List.cons_append]
  rw [if_neg (by omega), readUnit_hexPadded (by omega)]
  dsimp only
  rw [if_pos hlow]
  rfl

theorem toNat_valid (c : Char) : c.toNat < 0xD800 ∨ 0xDFFF < c.toNat ∧ c.toNat < 0x110000 :=
  c.valid

/-- A character as it is written is read back. -/
theorem readBody_escapeChar (ascii : Bool) (fuel : Nat) (c : Char) (rest : List Char) :
    readBody (fuel + 1) (escapeChar ascii c ++ rest) = do
      let (body, rest) ← readBody fuel rest
      return (c.toNat :: body, rest) := by
  rw [escapeChar]
  split_ifs with hquote hnewline hreturn htab hback hfeed hcontrol hbeyond hplane
  · rw [Bool.or_eq_true, beq_iff_eq, beq_iff_eq] at hquote
    obtain rfl | rfl := hquote <;> rfl
  · rw [beq_iff_eq.mp hnewline]
    rfl
  · rw [beq_iff_eq.mp hreturn]
    rfl
  · rw [beq_iff_eq.mp htab]
    rfl
  · rw [beq_iff_eq.mp hback]
    rfl
  · rw [beq_iff_eq.mp hfeed]
    rfl
  · rw [escapeUnit, List.cons_append, List.cons_append, readBody, readEscape_escapeUnit (by omega)]
  · rw [escapeUnit, List.cons_append, List.cons_append, readBody,
      readEscape_escapeUnit (by have := toNat_valid c; omega)]
  · have hvalid := toNat_valid c
    rw [List.append_assoc, escapeUnit, List.cons_append, List.cons_append, readBody,
      readEscape_pair (by omega) (by omega)]
    have hcode : 0x10000 + (0xD800 + (c.toNat - 0x10000) / 0x400 - 0xD800) * 0x400 +
        (0xDC00 + (c.toNat - 0x10000) % 0x400 - 0xDC00) = c.toNat := by
      omega
    rw [hcode]
  · simp only [Bool.or_eq_true, beq_iff_eq, not_or] at hquote
    rw [List.singleton_append, readBody, if_neg hcontrol]
    · exact hquote.1
    · exact hquote.2

/-- The code points of a text as it is written are read back. -/
theorem readBody_escaped (chars : List Char) {fuel : Nat} (hfuel : chars.length < fuel)
    (rest : List Char) :
    readBody fuel (chars.flatMap (escapeChar true) ++ '"' :: rest) = .ok (chars.map Char.toNat, rest) := by
  induction chars generalizing fuel with
  | nil =>
      obtain ⟨fuel, rfl⟩ := Nat.exists_eq_succ_of_ne_zero (Nat.ne_of_gt hfuel)
      rfl
  | cons c chars ih =>
      obtain ⟨fuel, rfl⟩ := Nat.exists_eq_succ_of_ne_zero (Nat.ne_of_gt (Nat.zero_lt_of_lt hfuel))
      rw [List.flatMap_cons, List.append_assoc, readBody_escapeChar,
        ih (Nat.lt_of_succ_lt_succ hfuel)]
      rfl

/-- Different texts are written differently, whatever follows. -/
theorem escaped_inj {chars others rest tail : List Char}
    (h : chars.flatMap (escapeChar true) ++ '"' :: rest = others.flatMap (escapeChar true) ++ '"' :: tail) :
    chars = others ∧ rest = tail := by
  have hread := congrArg (readBody (chars.length + others.length + 1)) h
  rw [readBody_escaped chars (by omega), readBody_escaped others (by omega)] at hread
  obtain ⟨hcodes, hrest⟩ := Prod.mk.inj (Except.ok.inj hread)
  exact ⟨(List.map_injective_iff.mpr fun _ _ => Char.toNat_inj.mp) hcodes, hrest⟩

section Halves

/-- The first half of a pair. -/
def IsHigh (code : Nat) : Prop :=
  0xD800 ≤ code ∧ code < 0xDC00

/-- The second half of a pair. -/
def IsLow (code : Nat) : Prop :=
  0xDC00 ≤ code ∧ code < 0xE000

/-- Code points no two of which are the halves of a pair, one behind the other. -/
structure Unpaired (points : List Nat) : Prop where
  bound : ∀ code ∈ points, code < 0x110000
  apart : points.IsChain fun code next => ¬(IsHigh code ∧ IsLow next)

/-- A text that does not start with the second half of a pair. -/
def StartsUnpaired (text : List Char) : Prop :=
  ∀ tail low rest, text = '\\' :: 'u' :: tail → readUnit tail = some (low, rest) → ¬IsLow low

theorem StartsUnpaired.of_ne {c : Char} {rest : List Char} (h : c ≠ '\\') : StartsUnpaired (c :: rest) := by
  rintro tail low rest' heq -
  exact absurd (List.cons.inj heq).1 h

theorem StartsUnpaired.of_mark_ne {c mark : Char} {rest : List Char} (h : mark ≠ 'u') :
    StartsUnpaired (c :: mark :: rest) := by
  rintro tail low rest' heq -
  exact absurd (List.cons.inj (List.cons.inj heq).2).1 h

theorem StartsUnpaired.escapeUnit {code : Nat} (hcode : code < 0x10000) (h : ¬IsLow code)
    (rest : List Char) : StartsUnpaired (escapeUnit code ++ rest) := by
  intro tail low rest' heq hread
  obtain rfl : hexPadded 4 code ++ rest = tail := (List.cons.inj (List.cons.inj heq).2).2
  rw [readUnit_hexPadded hcode] at hread
  obtain ⟨rfl, -⟩ := Prod.mk.inj (Option.some.inj hread)
  exact h

theorem StartsUnpaired.escapeChar (ascii : Bool) (c : Char) (rest : List Char) :
    StartsUnpaired (escapeChar ascii c ++ rest) := by
  have hvalid := toNat_valid c
  rw [Json.escapeChar]
  split_ifs with hquote hnewline hreturn htab hback hfeed hcontrol hbeyond hplane
  · rw [Bool.or_eq_true, beq_iff_eq, beq_iff_eq] at hquote
    obtain rfl | rfl := hquote <;> exact .of_mark_ne (by decide)
  iterate 5 exact .of_mark_ne (by decide)
  · exact .escapeUnit (by omega) (by unfold IsLow; omega) rest
  · exact .escapeUnit hplane (by unfold IsLow; omega) rest
  · rw [List.append_assoc]
    exact .escapeUnit (by omega) (by unfold IsLow; omega) _
  · rw [Bool.or_eq_true, beq_iff_eq, beq_iff_eq, not_or] at hquote
    exact .of_ne hquote.2

theorem toNat_ofNat {code : Nat} (h : code.isValidChar) : (Char.ofNat code).toNat = code := by
  rw [Char.ofNat, dif_pos h]
  rfl

theorem isValidChar_or_half {code : Nat} (h : code < 0x110000) :
    code.isValidChar ∨ ¬code.isValidChar ∧ (IsHigh code ∨ IsLow code) := by
  unfold IsHigh IsLow Nat.isValidChar
  omega

theorem StartsUnpaired.escapeCode {code : Nat} (hcode : code < 0x110000) (h : ¬IsLow code)
    (ascii : Bool) (rest : List Char) : StartsUnpaired (escapeCode ascii code ++ rest) := by
  rw [Json.escapeCode]
  split_ifs with hvalid
  · exact .escapeChar ascii _ rest
  · obtain hchar | ⟨-, hhigh | hlow⟩ := isValidChar_or_half hcode
    · exact absurd hchar hvalid
    · exact .escapeUnit (by unfold IsHigh at hhigh; omega) h rest
    · exact absurd hlow h

/-- The first half of a pair is read on its own where no second one follows. -/
theorem readEscape_high {code : Nat} (h : IsHigh code) {rest : List Char} (hrest : StartsUnpaired rest) :
    readEscape ('u' :: (hexPadded 4 code ++ rest)) = some (code, rest) := by
  obtain ⟨hlow, hhigh⟩ := h
  rw [readEscape, readUnit_hexPadded (by omega)]
  simp only [Option.bind_eq_bind, Option.bind_some]
  rw [if_neg (by omega)]
  split
  · rename_i more
    cases hread : readUnit more with
    | none => rfl
    | some found =>
        have hnot : ¬(0xDC00 ≤ found.1 ∧ found.1 < 0xE000) := hrest more found.1 found.2 rfl hread
        dsimp only
        rw [if_neg hnot]
        rfl
  · rfl

/-- A code point as it is written is read back. -/
theorem readBody_escapeCode {code : Nat} (hcode : code < 0x110000) (ascii : Bool) (fuel : Nat)
    {rest : List Char} (hrest : IsHigh code → StartsUnpaired rest) :
    readBody (fuel + 1) (escapeCode ascii code ++ rest) = do
      let (body, rest) ← readBody fuel rest
      return (code :: body, rest) := by
  rw [escapeCode]
  split_ifs with hvalid
  · rw [readBody_escapeChar, toNat_ofNat hvalid]
  · obtain hchar | ⟨-, hhigh | hlow⟩ := isValidChar_or_half hcode
    · exact absurd hchar hvalid
    · rw [escapeUnit, List.cons_append, List.cons_append, readBody, readEscape_high hhigh (hrest hhigh)]
    · have hunit : code < 0xD800 ∨ 0xDC00 ≤ code ∧ code < 0x10000 := by unfold IsLow at hlow; omega
      rw [escapeUnit, List.cons_append, List.cons_append, readBody, readEscape_escapeUnit hunit]

/-- Code points as they are written are read back. -/
theorem readBody_codes {points : List Nat} (h : Unpaired points) (ascii : Bool) {fuel : Nat}
    (hfuel : points.length < fuel) (rest : List Char) :
    readBody fuel (points.flatMap (escapeCode ascii) ++ '"' :: rest) = .ok (points, rest) := by
  obtain ⟨hbound, hapart⟩ := h
  induction points generalizing fuel with
  | nil =>
      obtain ⟨fuel, rfl⟩ := Nat.exists_eq_succ_of_ne_zero (Nat.ne_of_gt hfuel)
      rfl
  | cons code points ih =>
      obtain ⟨fuel, rfl⟩ := Nat.exists_eq_succ_of_ne_zero (Nat.ne_of_gt (Nat.zero_lt_of_lt hfuel))
      obtain ⟨hcode, hpoints⟩ := List.forall_mem_cons.mp hbound
      have hbehind : IsHigh code → StartsUnpaired (points.flatMap (escapeCode ascii) ++ '"' :: rest) := by
        intro hhigh
        cases points with
        | nil => exact .of_ne (by decide)
        | cons next points =>
            have hlow : ¬IsLow next := fun hlow => (List.isChain_cons_cons.mp hapart).1 ⟨hhigh, hlow⟩
            rw [List.flatMap_cons, List.append_assoc]
            exact .escapeCode (hpoints next List.mem_cons_self) hlow ascii _
      rw [List.flatMap_cons, List.append_assoc, readBody_escapeCode hcode ascii fuel hbehind,
        ih (Nat.lt_of_succ_lt_succ hfuel) hpoints hapart.of_cons]
      rfl

theorem escapeChar_ne_nil (ascii : Bool) (c : Char) : escapeChar ascii c ≠ [] := by
  rw [escapeChar]
  split_ifs <;> exact List.cons_ne_nil _ _

theorem length_le_escaped (ascii : Bool) (points : List Nat) :
    points.length ≤ (points.flatMap (escapeCode ascii)).length := by
  have hone (code : Nat) : 0 < (escapeCode ascii code).length := by
    rw [escapeCode]
    split_ifs
    · exact List.length_pos_iff.mpr (escapeChar_ne_nil ascii _)
    · exact Nat.succ_pos _
  induction points with
  | nil => exact Nat.le_refl 0
  | cons code points ih =>
      have := hone code
      rw [List.flatMap_cons, List.length_append, List.length_cons]
      omega

end Halves

end DocCompiler.Json
