import DocCompiler.Text.Utf8
import Mathlib.Tactic.SplitIfs

/-!
Texts read back from their bytes in UTF-8.
-/

namespace DocCompiler.Text

section Bytes

theorem toList_loop (bytes : ByteArray) (i : Nat) (done : List UInt8) :
    ByteArray.toList.loop bytes i done = done.reverse ++ bytes.data.toList.drop i := by
  fun_induction ByteArray.toList.loop bytes i done with
  | case1 i done hlt ih =>
      have hget : bytes.get! i = bytes.data.toList.get ⟨i, hlt⟩ := by
        change bytes.data[i]! = _
        rw [getElem!_pos bytes.data i hlt]
        rfl
      rw [ih, List.drop_eq_getElem_cons hlt, hget]
      simp
  | case2 i done hle =>
      have hlength : bytes.data.toList.length ≤ i := Nat.not_lt.mp hle
      rw [List.drop_eq_nil_of_le hlength, List.append_nil]

/-- A text is encoded one character after the other. -/
theorem encode_eq (text : String) : encode text = text.toList.flatMap String.utf8EncodeChar := by
  rw [encode, String.toUTF8_eq_toByteArray, ByteArray.toList, toList_loop, ← String.utf8Encode_toList]
  simp [List.utf8Encode, List.data_toByteArray]

variable {a b c d : UInt8} (offset : Nat) (done : List Char) (rest : List UInt8)

theorem decodeFrom_one (ha : sequenceLength? a = some 1) :
    decodeFrom offset done (a :: rest) = decodeFrom (offset + 1) (Char.ofNat a.toNat :: done) rest := by
  simp [decodeFrom, ha]

theorem decodeFrom_two (ha : sequenceLength? a = some 2) (hb : isSecond a b = true) :
    decodeFrom offset done (a :: b :: rest) =
      decodeFrom (offset + 2) (Char.ofNat (a.toNat % 32 * 64 + lowBits b) :: done) rest := by
  rw [decodeFrom, ha]
  simp [hb]

theorem decodeFrom_three (ha : sequenceLength? a = some 3) (hb : isSecond a b = true)
    (hc : isContinuation c = true) :
    decodeFrom offset done (a :: b :: c :: rest) =
      decodeFrom (offset + 3) (Char.ofNat ((a.toNat % 16 * 64 + lowBits b) * 64 + lowBits c) :: done) rest := by
  rw [decodeFrom, ha]
  simp [hb, hc]

theorem decodeFrom_four (ha : sequenceLength? a = some 4) (hb : isSecond a b = true)
    (hc : isContinuation c = true) (hd : isContinuation d = true) :
    decodeFrom offset done (a :: b :: c :: d :: rest) =
      decodeFrom (offset + 4)
        (Char.ofNat (((a.toNat % 8 * 64 + lowBits b) * 64 + lowBits c) * 64 + lowBits d) :: done) rest := by
  rw [decodeFrom, ha]
  simp [hb, hc, hd]

end Bytes

section Encoded

variable {m n : Nat}

theorem toNat_ofNat_byte (h : n < 256) : (UInt8.ofNat n).toNat = n := by
  rw [UInt8.toNat_ofNat']
  exact Nat.mod_eq_of_lt h

theorem sequenceLength?_ofNat (h : n < 256) :
    sequenceLength? (UInt8.ofNat n) =
      if n < 128 then some 1 else if 194 ≤ n ∧ n < 224 then some 2 else if 224 ≤ n ∧ n < 240 then some 3
      else if 240 ≤ n ∧ n < 245 then some 4 else none := by
  simp [sequenceLength?, UInt8.lt_iff_toNat_lt, UInt8.le_iff_toNat_le, toNat_ofNat_byte h]

theorem isContinuation_low (n : Nat) : isContinuation (UInt8.ofNat (n % 64 + 128)) = true := by
  have hlt : n % 64 + 128 < 256 := by omega
  simp only [isContinuation, UInt8.lt_iff_toNat_lt, UInt8.le_iff_toNat_le, toNat_ofNat_byte hlt, Bool.and_eq_true,
    decide_eq_true_eq]
  constructor
  · change 128 ≤ _
    omega
  · change _ < 192
    omega

theorem lowBits_low (n : Nat) : lowBits (UInt8.ofNat (n % 64 + 128)) = n % 64 := by
  rw [lowBits, toNat_ofNat_byte (by omega)]
  omega

/-- The second byte of a character that is written in the shortest form and is no half of a pair. -/
theorem isSecond_low (hm : m < 256) (hlong : m = 224 → 32 ≤ n % 64) (hhalf : m = 237 → n % 64 < 32)
    (hlonger : m = 240 → 16 ≤ n % 64) (hlast : m = 244 → n % 64 < 16) :
    isSecond (UInt8.ofNat m) (UInt8.ofNat (n % 64 + 128)) = true := by
  have hn : n % 64 + 128 < 256 := by omega
  have heq (k : Nat) (hk : k < 256) : UInt8.ofNat m = UInt8.ofNat k ↔ m = k := by
    rw [← UInt8.toNat_inj, toNat_ofNat_byte hm, toNat_ofNat_byte hk]
  have hE0 := heq 224 (by decide)
  have hED := heq 237 (by decide)
  have hF0 := heq 240 (by decide)
  have hF4 := heq 244 (by decide)
  rw [isSecond, isContinuation_low, Bool.true_and]
  simp only [UInt8.lt_iff_toNat_lt, UInt8.le_iff_toNat_le, toNat_ofNat_byte hn]
  split_ifs with h1 h2 h3 h4
  · have := hlong (hE0.mp h1)
    exact decide_eq_true (show 160 ≤ _ by omega)
  · have := hhalf (hED.mp h2)
    exact decide_eq_true (show _ < 160 by omega)
  · have := hlonger (hF0.mp h3)
    exact decide_eq_true (show 144 ≤ _ by omega)
  · have := hlast (hF4.mp h4)
    exact decide_eq_true (show _ < 144 by omega)
  · rfl

/-- A character is read back from its bytes, whatever stands behind it. -/
theorem decodeFrom_encoded (c : Char) (offset : Nat) (done : List Char) (rest : List UInt8) :
    ∃ next, decodeFrom offset done (String.utf8EncodeChar c ++ rest) = decodeFrom next (c :: done) rest := by
  have hvalid : c.val.toNat < 0xD800 ∨ 0xDFFF < c.val.toNat ∧ c.val.toNat < 0x110000 := c.valid
  have hself (n : Nat) (h : n = c.val.toNat) : Char.ofNat n = c := by
    rw [h]
    exact Char.ofNat_toNat c
  rw [String.utf8EncodeChar]
  generalize c.val.toNat = v at *
  split_ifs with h1 h2 h3
  · have ha : sequenceLength? (UInt8.ofNat v) = some 1 := by
      rw [sequenceLength?_ofNat (by omega), if_pos (by omega)]
    refine ⟨offset + 1, ?_⟩
    rw [List.singleton_append, decodeFrom_one offset done rest ha, hself _ (toNat_ofNat_byte (by omega))]
  · have ha : sequenceLength? (UInt8.ofNat (v / 64 % 32 + 192)) = some 2 := by
      rw [sequenceLength?_ofNat (by omega), if_neg (by omega), if_pos (by omega)]
    have hb : isSecond (UInt8.ofNat (v / 64 % 32 + 192)) (UInt8.ofNat (v % 64 + 128)) = true :=
      isSecond_low (by omega) (by omega) (by omega) (by omega) (by omega)
    refine ⟨offset + 2, ?_⟩
    rw [List.cons_append, List.singleton_append, decodeFrom_two offset done rest ha hb, lowBits_low,
      toNat_ofNat_byte (by omega), hself _ (by omega)]
  · have ha : sequenceLength? (UInt8.ofNat (v / 4096 % 16 + 224)) = some 3 := by
      rw [sequenceLength?_ofNat (by omega), if_neg (by omega), if_neg (by omega), if_pos (by omega)]
    have hb : isSecond (UInt8.ofNat (v / 4096 % 16 + 224)) (UInt8.ofNat (v / 64 % 64 + 128)) = true :=
      isSecond_low (by omega) (by omega) (by omega) (by omega) (by omega)
    refine ⟨offset + 3, ?_⟩
    rw [List.cons_append, List.cons_append, List.singleton_append,
      decodeFrom_three offset done rest ha hb (isContinuation_low v), lowBits_low, lowBits_low,
      toNat_ofNat_byte (by omega), hself _ (by omega)]
  · have ha : sequenceLength? (UInt8.ofNat (v / 262144 % 8 + 240)) = some 4 := by
      rw [sequenceLength?_ofNat (by omega), if_neg (by omega), if_neg (by omega), if_neg (by omega),
        if_pos (by omega)]
    have hb : isSecond (UInt8.ofNat (v / 262144 % 8 + 240)) (UInt8.ofNat (v / 4096 % 64 + 128)) = true :=
      isSecond_low (by omega) (by omega) (by omega) (by omega) (by omega)
    refine ⟨offset + 4, ?_⟩
    rw [List.cons_append, List.cons_append, List.cons_append, List.singleton_append,
      decodeFrom_four offset done rest ha hb (isContinuation_low _) (isContinuation_low v), lowBits_low,
      lowBits_low, lowBits_low, toNat_ofNat_byte (by omega), hself _ (by omega)]

/-- A text is read back from its bytes. -/
theorem decode_encode (text : String) : decode (encode text) = .ok text.toList := by
  have hdecode (chars : List Char) : ∀ offset done,
      decodeFrom offset done (chars.flatMap String.utf8EncodeChar) = .ok (done.reverse ++ chars) := by
    induction chars with
    | nil => simp [decodeFrom]
    | cons c chars ih =>
        intro offset done
        rw [List.flatMap_cons]
        obtain ⟨next, hnext⟩ := decodeFrom_encoded c offset done (chars.flatMap String.utf8EncodeChar)
        rw [hnext, ih]
        simp
  rw [decode, encode_eq]
  exact hdecode text.toList 0 []

end Encoded

end DocCompiler.Text
