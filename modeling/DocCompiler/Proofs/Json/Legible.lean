import DocCompiler.Proofs.Json.Roundtrip

/-!
What is read from JSON texts. A value that is read can be written and read back, and no more lists and mappings
are nested in it than are read.
-/

namespace DocCompiler

namespace Datum

/-- A value that can be read back where the given number of lists and mappings is read. -/
structure LegibleWithin (levels : Nat) (value : Datum) : Prop where
  legible : value.Legible
  nested : value.nesting ≤ levels

theorem legibleWithin_of_nesting_eq_zero {levels : Nat} {value : Datum} (h : value.Legible)
    (hnesting : value.nesting = 0) : value.LegibleWithin levels :=
  ⟨h, hnesting ▸ Nat.zero_le levels⟩

theorem LegibleText.nesting_eq_zero {value : Datum} (h : value.LegibleText) : value.nesting = 0 := by
  match value, h with
  | .text _, _ | .codes _, _ => rfl

theorem LegibleWithin.list {levels : Nat} {items : List Datum} (h : ∀ item ∈ items, item.LegibleWithin levels) :
    (Datum.list items).LegibleWithin (levels + 1) := by
  refine ⟨allLegible_iff.mpr fun item hitem => (h item hitem).legible, ?_⟩
  rw [nesting, Nat.add_comm 1]
  exact Nat.succ_le_succ (itemsNesting_le_iff.mpr fun item hitem => (h item hitem).nested)

theorem legibleWithin_map_iff {levels : Nat} {entries : List (Datum × Datum)} :
    (Datum.map entries).LegibleWithin (levels + 1) ↔ (entries.map (·.1)).Nodup ∧
      ∀ entry ∈ entries, entry.1.LegibleText ∧ entry.2.LegibleWithin levels := by
  have hnesting : (Datum.map entries).nesting ≤ levels + 1 ↔ ∀ entry ∈ entries, entry.2.nesting ≤ levels := by
    rw [nesting, Nat.add_comm 1, Nat.add_le_add_iff_right, entriesNesting_le_iff]
  constructor
  · rintro ⟨⟨hnodup, hlegible⟩, hnested⟩
    refine ⟨hnodup, fun entry hentry => ?_⟩
    obtain ⟨hkey, hvalue⟩ := entriesLegible_iff.mp hlegible entry hentry
    exact ⟨hkey, hvalue, hnesting.mp hnested entry hentry⟩
  · rintro ⟨hnodup, h⟩
    refine ⟨⟨hnodup, entriesLegible_iff.mpr fun entry hentry => ?_⟩, hnesting.mpr fun entry hentry => ?_⟩
    · exact ⟨(h entry hentry).1, (h entry hentry).2.legible⟩
    · exact (h entry hentry).2.nested

theorem LegibleWithin.field? {levels : Nat} {value item : Datum} {name : String}
    (h : value.LegibleWithin (levels + 1)) (hitem : value.field? name = some item) : item.LegibleWithin levels := by
  cases value with
  | map entries =>
      obtain ⟨key, -, hmem⟩ := mem_of_lookup_eq_some hitem
      exact ((legibleWithin_map_iff.mp h).2 _ hmem).2
  | _ => cases hitem

theorem sameKey_self_of_legibleText {key : Datum} (h : key.LegibleText) : key.sameKey key = true :=
  (ofCodes_sameKey ⟨key.points, (ofCodes_points h).symm⟩).mpr rfl

theorem nodup_of_distinct {α : Type} {entries : List (Datum × α)}
    (h : ∀ key ∈ entries.map (·.1), LegibleText key) (hdistinct : Distinct entries) :
    (entries.map (·.1)).Nodup := by
  refine (distinct_iff_keys.mp hdistinct).imp_of_mem fun {first second} hfirst _ hne heq => ?_
  rw [← heq, sameKey_self_of_legibleText (h first hfirst)] at hne
  cases hne

/-- Of entries with the same key the last one counts, so that a mapping is put together of legible entries. -/
theorem LegibleWithin.distinctEntries {levels : Nat} {entries : List (Datum × Datum)}
    (h : ∀ entry ∈ entries, entry.1.LegibleText ∧ entry.2.LegibleWithin levels) :
    (Datum.map (Datum.distinctEntries entries)).LegibleWithin (levels + 1) := by
  have hkept : ∀ entry ∈ Datum.distinctEntries entries,
      entry.1.LegibleText ∧ entry.2.LegibleWithin levels := by
    intro entry hentry
    obtain ⟨hkey, hvalue⟩ := mem_distinctEntries hentry
    obtain ⟨first, hfirst, hname⟩ := List.mem_map.mp hkey
    obtain ⟨second, hsecond, hitem⟩ := List.mem_map.mp hvalue
    exact ⟨hname ▸ (h first hfirst).1, hitem ▸ (h second hsecond).2⟩
  refine legibleWithin_map_iff.mpr ⟨nodup_of_distinct ?_ (distinct_distinctEntries entries), hkept⟩
  exact List.forall_mem_map.mpr fun entry hentry => (hkept entry hentry).1

end Datum

namespace Json

open Text

section Codes

theorem hexValue?_lt {c : Char} {value : Nat} (h : hexValue? c = some value) : value < 16 := by
  have hle {a b : Char} (hab : a ≤ b) : a.toNat ≤ b.toNat := hab
  unfold hexValue? at h
  split_ifs at h with hdigit hlower hupper
  · obtain rfl := Option.some.inj h
    have : c.toNat ≤ 57 := (Char.isDigit_iff_toNat.mp hdigit).2
    omega
  · obtain rfl := Option.some.inj h
    have : c.toNat ≤ 102 := hle hlower.2
    omega
  · obtain rfl := Option.some.inj h
    have : c.toNat ≤ 70 := hle hupper.2
    omega

theorem readUnit_lt {text rest : List Char} {unit : Nat} (h : readUnit text = some (unit, rest)) :
    unit < 0x10000 := by
  unfold readUnit at h
  split at h
  · simp only [Option.bind_eq_bind, Option.bind_eq_some_iff, Option.pure_def, Option.some.injEq,
      Prod.mk.injEq] at h
    obtain ⟨a, ha, b, hb, c, hc, d, hd, rfl, -⟩ := h
    have := hexValue?_lt ha
    have := hexValue?_lt hb
    have := hexValue?_lt hc
    have := hexValue?_lt hd
    omega
  · cases h

/-- A code point behind a backslash, as it is read: where it is the first half of a pair, no second half follows,
and where it is a second half, it stands escaped. -/
structure Escaped (text : List Char) (code : Nat) (rest : List Char) : Prop where
  bound : code < 0x110000
  apart : IsHigh code → StartsUnpaired rest
  low : IsLow code → ∃ tail, text = 'u' :: tail ∧ readUnit tail = some (code, rest)

theorem Escaped.of_lt {text rest : List Char} {code : Nat} (h : code < 0xD800) : Escaped text code rest where
  bound := by omega
  apart hhigh := by unfold IsHigh at hhigh; omega
  low hlow := by unfold IsLow at hlow; omega

theorem escaped_unit {text rest : List Char} {code : Nat} (h : readEscape ('u' :: text) = some (code, rest)) :
    Escaped ('u' :: text) code rest := by
  simp only [readEscape, Option.bind_eq_bind, Option.bind_eq_some_iff] at h
  obtain ⟨⟨unit, more⟩, hunit, h⟩ := h
  dsimp only at h
  have hbound := readUnit_lt hunit
  split_ifs at h with hsingle
  · obtain ⟨rfl, rfl⟩ := Prod.mk.inj (Option.some.inj h)
    exact ⟨by omega, fun hhigh => by unfold IsHigh at hhigh; omega, fun _ => ⟨text, rfl, hunit⟩⟩
  · -- A first half: what follows it is looked at.
    have halone (hrest : StartsUnpaired more) (hcode : some (unit, more) = some (code, rest)) :
        Escaped ('u' :: text) code rest := by
      obtain ⟨rfl, rfl⟩ := Prod.mk.inj (Option.some.inj hcode)
      exact ⟨by omega, fun _ => hrest, fun hlow => by unfold IsLow at hlow; omega⟩
    split at h
    · next tail =>
        cases hlow : readUnit tail with
        | none =>
            rw [hlow] at h
            refine halone ?_ h
            rintro _ low behind heq hread
            obtain rfl := (List.cons.inj (List.cons.inj heq).2).2
            rw [hlow] at hread
            cases hread
        | some found =>
            obtain ⟨low, behind⟩ := found
            rw [hlow] at h
            dsimp only at h
            split_ifs at h with hpair
            · obtain ⟨rfl, rfl⟩ := Prod.mk.inj (Option.some.inj h)
              refine ⟨by omega, fun hhigh => ?_, fun hlow => ?_⟩
              · unfold IsHigh at hhigh
                omega
              · unfold IsLow at hlow
                omega
            · refine halone ?_ h
              rintro _ other behind' heq hread
              obtain rfl := (List.cons.inj (List.cons.inj heq).2).2
              rw [hlow] at hread
              obtain ⟨rfl, -⟩ := Prod.mk.inj (Option.some.inj hread)
              exact hpair
    · next hno =>
        refine halone ?_ h
        rintro tail low behind heq -
        exact absurd heq (hno tail)

theorem escaped_of_readEscape {text rest : List Char} {code : Nat}
    (h : readEscape text = some (code, rest)) : Escaped text code rest := by
  have hread := h
  unfold readEscape at h
  split at h
  case h_9 => exact escaped_unit hread
  case h_10 => cases h
  all_goals
    obtain ⟨rfl, rfl⟩ := Prod.mk.inj (Option.some.inj h)
    exact .of_lt (by decide)

/-- The code points of a string, as they are read: no two of them are the halves of a pair, and the first one is
no second half unless the text starts with one. -/
structure Spelled (text : List Char) (points : List Nat) : Prop where
  unpaired : Unpaired points
  start : StartsUnpaired text → ∀ code ∈ points.head?, ¬IsLow code

theorem Spelled.cons {text rest : List Char} {code : Nat} {points : List Nat} (hbound : code < 0x110000)
    (hapart : IsHigh code → StartsUnpaired rest) (hlow : StartsUnpaired text → ¬IsLow code)
    (h : Spelled rest points) : Spelled text (code :: points) := by
  refine ⟨⟨List.forall_mem_cons.mpr ⟨hbound, h.unpaired.bound⟩, ?_⟩, ?_⟩
  · refine List.isChain_cons.mpr ⟨fun next hnext hpair => ?_, h.unpaired.apart⟩
    exact h.start (hapart hpair.1) next hnext hpair.2
  · rintro hstart _ ⟨⟩
    exact hlow hstart

theorem spelled_of_readBody {fuel : Nat} {text rest : List Char} {points : List Nat}
    (h : readBody fuel text = .ok (points, rest)) : Spelled text points := by
  induction fuel generalizing text points rest with
  | zero => cases h
  | succ fuel ih =>
      unfold readBody at h
      split at h
      · cases h
      · cases h
      · obtain ⟨rfl, -⟩ := Prod.mk.inj (Except.ok.inj h)
        exact ⟨⟨by simp, .nil⟩, by simp⟩
      · next heq =>
          obtain rfl := Nat.succ.inj heq
          split at h
          · cases h
          · next code more hescape =>
              simp only [Result.bind_eq_ok_iff, Result.pure_eq_ok_iff, Prod.exists, Prod.mk.injEq] at h
              obtain ⟨body, behind, hbody, rfl, -⟩ := h
              have hescaped := escaped_of_readEscape hescape
              refine .cons hescaped.bound hescaped.apart (fun hstart hlow => ?_) (ih hbody)
              obtain ⟨tail, rfl, hunit⟩ := hescaped.low hlow
              exact hstart tail code more rfl hunit hlow
      · next c text hquote hslash heq =>
          obtain rfl := Nat.succ.inj heq
          split_ifs at h
          simp only [Result.bind_eq_ok_iff, Result.pure_eq_ok_iff, Prod.exists, Prod.mk.injEq] at h
          obtain ⟨body, behind, hbody, rfl, -⟩ := h
          -- A character is no half of a pair.
          have hvalid := toNat_valid c
          refine .cons (by omega) (fun hhigh => ?_) (fun _ hlow => ?_) (ih hbody)
          · unfold IsHigh at hhigh
            omega
          · unfold IsLow at hlow
            omega

theorem legibleText_ofCodes {points : List Nat} (h : Unpaired points) : (Datum.ofCodes points).LegibleText := by
  obtain ⟨text, htext⟩ | hcodes := Datum.ofCodes_cases points
  · rw [htext]
    trivial
  · rw [hcodes]
    exact ⟨hcodes, h⟩

end Codes

section Numbers

theorem digitsValue_lt {digits : List Char} (h : ∀ c ∈ digits, c.isDigit = true) :
    digitsValue digits < tenTo digits.length := by
  have hfold : ∀ start : Nat, digits.foldl (fun value c => (digitValue? c).elim value (10 * value + ·)) start <
      (start + 1) * 10 ^ digits.length := by
    induction digits with
    | nil => simp
    | cons c digits ih =>
        obtain ⟨hc, hdigits⟩ := List.forall_mem_cons.mp h
        have hle : c.toNat ≤ 57 := (Char.isDigit_iff_toNat.mp hc).2
        intro start
        rw [List.foldl_cons, digitValue?, if_pos hc, Option.elim_some, List.length_cons]
        calc _ < (10 * start + (c.toNat - 48) + 1) * 10 ^ digits.length := ih hdigits _
          _ ≤ ((start + 1) * 10) * 10 ^ digits.length := Nat.mul_le_mul_right _ (by omega)
          _ = (start + 1) * 10 ^ (digits.length + 1) := by rw [Nat.pow_succ']; ring
  simpa [tenTo, digitsValue] using hfold 0

/-- A whole number that is read has a text. -/
theorem isWritable_of_ofDigits {negative : Bool} {digits : List Char} {value : Int}
    (hdigits : ∀ c ∈ digits, c.isDigit = true) (h : Number.ofDigits negative digits = .ok value) :
    (Number.int value).isWritable = true := by
  rw [Number.ofDigits] at h
  split at h
  · cases h
  rename_i hlength
  have hlt : digitsValue digits < tenTo Number.maxDigits :=
    (digitsValue_lt hdigits).trans_le (tenTo_le (not_lt.mp hlength))
  have hsize : value.natAbs = digitsValue digits := by
    obtain rfl := Except.ok.inj h
    cases negative <;> simp
  rw [Number.isWritable, Bool.or_eq_true, decide_eq_true_eq, decide_eq_true_eq, hsize]
  exact .inr hlt

theorem isDigit_of_mem_wholeDigits {text : List Char} : ∀ c ∈ wholeDigits text, c.isDigit = true := by
  unfold wholeDigits
  split
  · simp
  · exact fun c hc => List.all_eq_true.mp (List.all_takeWhile) c hc

theorem legible_readNumber {text rest : List Char} {number : Number}
    (h : readNumber text = .ok (number, rest)) : number.isWritable = true ∧ number.Canonical := by
  unfold readNumber at h
  dsimp only at h
  generalize (if (text.head? == some '-') = true then text.drop 1 else text) = body at h
  generalize (if (fractionDigits (body.drop (wholeDigits body).length)).isEmpty = true then
    body.drop (wholeDigits body).length else _) = behind at h
  split_ifs at h
  · split at h
    · next value hvalue =>
        obtain ⟨rfl, -⟩ := Prod.mk.inj (Except.ok.inj h)
        exact ⟨isWritable_of_ofDigits isDigit_of_mem_wholeDigits hvalue, trivial⟩
    · cases h
  · obtain ⟨rfl, -⟩ := Prod.mk.inj (Except.ok.inj h)
    exact ⟨rfl, Binary64.canonical_ofDecimal _ _ _⟩

theorem legible_readSimple {text rest : List Char} {value : Datum} (h : readSimple text = .ok (value, rest)) :
    value.Legible ∧ value.nesting = 0 := by
  unfold readSimple at h
  -- Three words are no numbers, and three are.
  iterate 3
    split at h
    · obtain ⟨rfl, -⟩ := Prod.mk.inj (Except.ok.inj h)
      exact ⟨trivial, rfl⟩
  iterate 3
    split at h
    · obtain ⟨rfl, -⟩ := Prod.mk.inj (Except.ok.inj h)
      exact ⟨⟨rfl, trivial⟩, rfl⟩
  simp only [Result.bind_eq_ok_iff, Result.pure_eq_ok_iff, Prod.exists, Prod.mk.injEq] at h
  obtain ⟨number, behind, hnumber, rfl, -⟩ := h
  exact ⟨legible_readNumber hnumber, rfl⟩

end Numbers

section Values

variable {limit : Nat}

mutual

/-- What is read inside some lists and mappings can be read back where that many fewer are read. -/
theorem legible_readValue : (fuel : Nat) → ∀ {level levels : Nat} {text rest : List Char} {value : Datum},
    level + levels = limit → readValue limit fuel level text = .ok (value, rest) → value.LegibleWithin levels
  | 0, _, _, _, _, _, _, h => by
      rw [readValue] at h
      cases h
  | fuel + 1, level, levels, text, rest, value, hlevels, h => by
      unfold readValue at h
      split at h
      · simp only [Result.bind_eq_ok_iff, Result.pure_eq_ok_iff, Prod.exists, Prod.mk.injEq] at h
        obtain ⟨body, behind, hbody, rfl, -⟩ := h
        have htext := legibleText_ofCodes (spelled_of_readBody hbody).unpaired
        exact Datum.legibleWithin_of_nesting_eq_zero htext.legible htext.nesting_eq_zero
      · split_ifs at h
        obtain ⟨levels, rfl⟩ : ∃ fewer, levels = fewer + 1 := ⟨levels - 1, by omega⟩
        split at h
        · obtain ⟨rfl, -⟩ := Prod.mk.inj (Except.ok.inj h)
          exact .list (by simp)
        · simp only [Result.bind_eq_ok_iff, Result.pure_eq_ok_iff, Prod.exists, Prod.mk.injEq] at h
          obtain ⟨items, behind, hitems, rfl, -⟩ := h
          exact .list (legible_readItems fuel (by omega) hitems)
      · split_ifs at h
        obtain ⟨levels, rfl⟩ : ∃ fewer, levels = fewer + 1 := ⟨levels - 1, by omega⟩
        split at h
        · obtain ⟨rfl, -⟩ := Prod.mk.inj (Except.ok.inj h)
          exact Datum.legibleWithin_map_iff.mpr ⟨List.nodup_nil, by simp⟩
        · simp only [Result.bind_eq_ok_iff, Result.pure_eq_ok_iff, Prod.exists, Prod.mk.injEq] at h
          obtain ⟨entries, behind, hentries, rfl, -⟩ := h
          exact .distinctEntries (legible_readEntries fuel (by omega) hentries)
      · obtain ⟨hlegible, hnesting⟩ := legible_readSimple h
        exact Datum.legibleWithin_of_nesting_eq_zero hlegible hnesting

theorem legible_readItems : (fuel : Nat) → ∀ {level levels : Nat} {text rest : List Char} {items : List Datum},
    level + levels = limit → readItems limit fuel level text = .ok (items, rest) →
      ∀ item ∈ items, item.LegibleWithin levels
  | 0, _, _, _, _, _, _, h => by
      rw [readItems] at h
      cases h
  | fuel + 1, level, levels, text, rest, items, hlevels, h => by
      simp only [readItems, Result.bind_eq_ok_iff, Prod.exists] at h
      obtain ⟨item, behind, hitem, h⟩ := h
      have hfirst := legible_readValue fuel hlevels hitem
      split at h
      · obtain ⟨rfl, -⟩ := Prod.mk.inj (Result.pure_eq_ok_iff.mp h)
        simpa using hfirst
      · simp only [Result.bind_eq_ok_iff, Result.pure_eq_ok_iff, Prod.exists, Prod.mk.injEq] at h
        obtain ⟨more, final, hmore, rfl, -⟩ := h
        exact List.forall_mem_cons.mpr ⟨hfirst, legible_readItems fuel hlevels hmore⟩
      · cases h

theorem legible_readEntries : (fuel : Nat) → ∀ {level levels : Nat} {text rest : List Char}
    {entries : List (Datum × Datum)}, level + levels = limit →
      readEntries limit fuel level text = .ok (entries, rest) →
        ∀ entry ∈ entries, entry.1.LegibleText ∧ entry.2.LegibleWithin levels
  | 0, _, _, _, _, _, _, h => by
      rw [readEntries] at h
      cases h
  | fuel + 1, level, levels, text, rest, entries, hlevels, h => by
      unfold readEntries at h
      split at h
      · simp only [Result.bind_eq_ok_iff, Prod.exists] at h
        obtain ⟨key, behind, hkey, h⟩ := h
        have hname := legibleText_ofCodes (spelled_of_readBody hkey).unpaired
        split at h
        · simp only [Result.bind_eq_ok_iff, Prod.exists] at h
          obtain ⟨item, next, hitem, h⟩ := h
          have hfirst := legible_readValue fuel hlevels hitem
          split at h
          · obtain ⟨rfl, -⟩ := Prod.mk.inj (Result.pure_eq_ok_iff.mp h)
            simpa using ⟨hname, hfirst⟩
          · simp only [Result.bind_eq_ok_iff, Result.pure_eq_ok_iff, Prod.exists, Prod.mk.injEq] at h
            obtain ⟨more, final, hmore, rfl, -⟩ := h
            exact List.forall_mem_cons.mpr ⟨⟨hname, hfirst⟩, legible_readEntries fuel hlevels hmore⟩
          · cases h
        · cases h
      · cases h

end

/-- A value that is read can be written and read back where as many lists and mappings are read. -/
theorem legible_readWithin {text : List Char} {value : Datum} (h : readWithin limit text = .ok value) :
    value.LegibleWithin limit := by
  simp only [readWithin, Result.bind_eq_ok_iff, Prod.exists] at h
  obtain ⟨found, rest, hread, h⟩ := h
  split_ifs at h
  obtain rfl := Result.pure_eq_ok_iff.mp h
  exact legible_readValue _ (Nat.zero_add limit) hread

end Values

end Json

end DocCompiler
