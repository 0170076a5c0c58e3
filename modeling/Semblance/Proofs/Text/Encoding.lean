import Mathlib.Data.List.Basic
import Semblance.Text.Utf8

/-!
# Stored texts

A text that is stored is found again: the decoder goes through the bytes of a character and adds that character
(`foldl_step_utf8EncodeChar`), so decoding undoes encoding (`decode_encode`).
-/

namespace Semblance.Text

namespace Decoding

variable {done : List Char} {b : UInt8}

/-! ### Steps of the decoder -/

theorem step_of_lt (h : b.toNat < 0x80) : step ⟨done, none⟩ b = ⟨Char.ofNat b.toNat :: done, none⟩ := by
  simp only [step, start]
  rw [if_pos h]

theorem step_of_two {k : Nat} (hb : b.toNat = 0xC0 + k) (hlow : 2 ≤ k) (hhigh : k < 0x20) :
    step ⟨done, none⟩ b = ⟨done, some ⟨1, 0x80, 0xBF, k⟩⟩ := by
  simp only [step, start, hb]
  rw [if_neg (by omega), if_pos (by simp; omega), Nat.add_sub_cancel_left]

/-- A sequence of three bytes starts.  Its second byte has to leave out what is shorter and the surrogates. -/
theorem step_of_three {k : Nat} (hb : b.toNat = 0xE0 + k) (hk : k < 0x10) :
    step ⟨done, none⟩ b =
      ⟨done, some ⟨2, if k = 0 then 0xA0 else 0x80, if k = 13 then 0x9F else 0xBF, k⟩⟩ := by
  simp only [step, start, hb]
  rw [if_neg (by omega), if_neg (by simp; omega)]
  by_cases h0 : k = 0
  · subst h0
    rfl
  by_cases h13 : k = 13
  · subst h13
    rfl
  · rw [if_neg (by omega), if_neg (by omega), if_pos (by simp; omega), if_neg h0, if_neg h13,
      Nat.add_sub_cancel_left]

/-- A sequence of four bytes starts.  Its second byte has to leave out what is shorter and what is no code point. -/
theorem step_of_four {k : Nat} (hb : b.toNat = 0xF0 + k) (hk : k < 5) :
    step ⟨done, none⟩ b =
      ⟨done, some ⟨3, if k = 0 then 0x90 else 0x80, if k = 4 then 0x8F else 0xBF, k⟩⟩ := by
  simp only [step, start, hb]
  rw [if_neg (by omega), if_neg (by simp; omega), if_neg (by omega), if_neg (by omega), if_neg (by simp; omega)]
  by_cases h0 : k = 0
  · subst h0
    rfl
  by_cases h4 : k = 4
  · subst h4
    rfl
  · rw [if_neg (by omega), if_pos (by simp; omega), if_neg h0, if_neg h4, Nat.add_sub_cancel_left]

/-- A byte in the middle of a sequence. -/
theorem step_more {n low high bits k : Nat} (hb : b.toNat = 0x80 + k) (hlow : low ≤ 0x80 + k)
    (hhigh : 0x80 + k ≤ high) :
    step ⟨done, some ⟨n + 2, low, high, bits⟩⟩ b = ⟨done, some ⟨n + 1, 0x80, 0xBF, 64 * bits + k⟩⟩ := by
  simp only [step, hb]
  rw [if_pos (by simp [hlow, hhigh]), if_neg (by omega), Nat.add_sub_cancel_left]
  rfl

theorem step_last {low high bits k : Nat} (hb : b.toNat = 0x80 + k) (hlow : low ≤ 0x80 + k) (hhigh : 0x80 + k ≤ high) :
    step ⟨done, some ⟨1, low, high, bits⟩⟩ b = ⟨Char.ofNat (64 * bits + k) :: done, none⟩ := by
  simp only [step, hb]
  rw [if_pos (by simp [hlow, hhigh]), if_pos trivial, Nat.add_sub_cancel_left]

/-- The bytes of a character add that character to what has been read. -/
theorem foldl_step_utf8EncodeChar (done : List Char) (c : Char) :
    (String.utf8EncodeChar c).foldl step ⟨done, none⟩ = ⟨c :: done, none⟩ := by
  have hvalid : c.toNat < 0xD800 ∨ 0xDFFF < c.toNat ∧ c.toNat < 0x110000 := c.valid
  have hc : Char.ofNat c.toNat = c := Char.ofNat_toNat c
  have hbyte {n : Nat} (hn : n < 256) : (UInt8.ofNat n).toNat = n := by
    rw [UInt8.toNat_ofNat', Nat.mod_eq_of_lt hn]
  have htail (n : Nat) : (UInt8.ofNat (n % 64 + 128)).toNat = 0x80 + n % 64 := by rw [hbyte] <;> omega
  unfold String.utf8EncodeChar
  rw [← Char.toNat]
  generalize c.toNat = v at *
  dsimp only
  split
  · rw [List.foldl_cons, step_of_lt (by rw [hbyte] <;> omega), hbyte (by omega), hc, List.foldl_nil]
  split
  · have hlead : (UInt8.ofNat (v / 64 % 32 + 192)).toNat = 0xC0 + v / 64 := by rw [hbyte] <;> omega
    have hbits : 64 * (v / 64) + v % 64 = v := by omega
    rw [List.foldl_cons, step_of_two hlead (by omega) (by omega), List.foldl_cons,
      step_last (htail v) (by omega) (by omega), hbits, hc, List.foldl_nil]
  split
  · have hlead : (UInt8.ofNat (v / 4096 % 16 + 224)).toNat = 0xE0 + v / 4096 := by rw [hbyte] <;> omega
    have hbits : 64 * (64 * (v / 4096) + v / 64 % 64) + v % 64 = v := by omega
    rw [List.foldl_cons, step_of_three hlead (by omega), List.foldl_cons,
      step_more (htail (v / 64)) (by split <;> omega) (by split <;> omega), List.foldl_cons,
      step_last (htail v) (by omega) (by omega), hbits, hc, List.foldl_nil]
  · have hlead : (UInt8.ofNat (v / 262144 % 8 + 240)).toNat = 0xF0 + v / 262144 := by rw [hbyte] <;> omega
    have hbits : 64 * (64 * (64 * (v / 262144) + v / 4096 % 64) + v / 64 % 64) + v % 64 = v := by omega
    rw [List.foldl_cons, step_of_four hlead (by omega), List.foldl_cons,
      step_more (htail (v / 4096)) (by split <;> omega) (by split <;> omega), List.foldl_cons,
      step_more (htail (v / 64)) (by omega) (by omega), List.foldl_cons,
      step_last (htail v) (by omega) (by omega), hbits, hc, List.foldl_nil]

end Decoding

/-! ### Texts -/

theorem foldl_step_encode (done s : List Char) :
    (s.flatMap String.utf8EncodeChar).foldl Decoding.step ⟨done, none⟩ = ⟨s.reverse ++ done, none⟩ := by
  induction s generalizing done with
  | nil => rfl
  | cons c s ih => rw [List.flatMap_cons, List.foldl_append, Decoding.foldl_step_utf8EncodeChar, ih]; simp

/-- Decoding gives the text back that was encoded. -/
theorem decode_encode (text : String) : decode (encode text) = text.toList := by
  rw [decode, encode, foldl_step_encode]
  simp

theorem length_encode (text : String) : (encode text).length = text.utf8ByteSize := by
  rw [encode, ← List.size_toByteArray, ← List.utf8Encode]
  conv_rhs => rw [← String.ofList_toList (s := text)]
  rfl

/-- A text without carriage returns has no line ends to unify. -/
theorem unifyBreaks_eq_self {s : List Char} (h : '\r' ∉ s) : unifyBreaks s = s := by
  suffices hfrom : ∀ done, unifyBreaksFrom done s = done.reverse ++ s from hfrom []
  intro done
  fun_induction unifyBreaksFrom done s with
  | case1 done => simp
  | case2 done rest ih => simp at h
  | case3 done c rest hne ih =>
    simp only [List.mem_cons, not_or] at h
    rw [ih h.2, if_neg (Ne.symm h.1)]
    simp

/-- A text without carriage returns is read as it was stored. -/
theorem readBytes_encode {text : String} (h : '\r' ∉ text.toList) : readBytes (encode text) = text := by
  rw [readBytes, decode_encode, unifyBreaks_eq_self h, String.ofList_toList]

end Semblance.Text
