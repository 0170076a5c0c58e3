import Mathlib.Tactic.Ring
import Mathlib.Tactic.SplitIfs
import Semblance.Proofs.Text.Encoding

/-!
# Decoding lenient bytes

Every character that is read takes up at least as many bytes as it is stored in (`Decoding.Fits.step`): a sequence
that is under way has room for the character it will give, whatever its last bytes are.  Bytes that are dropped only
add to this, so what is read is stored in no more bytes than it was read from (`length_encode_readBytes_le`).
-/

namespace Semblance.Text

/-! ### Line ends -/

/-- The text `t` is `s` with a line feed for each carriage return, where a line feed that follows the return counts
as part of it. -/
inductive HasLineEnds : (s t : List Char) → Prop
  | nil : HasLineEnds [] []
  | pair {s t : List Char} (h : HasLineEnds s t) : HasLineEnds ('\r' :: '\n' :: s) ('\n' :: t)
  | single {s t : List Char} (hs : s.head? ≠ some '\n') (h : HasLineEnds s t) : HasLineEnds ('\r' :: s) ('\n' :: t)
  | plain {c : Char} {s t : List Char} (hc : c ≠ '\r') (h : HasLineEnds s t) : HasLineEnds (c :: s) (c :: t)

theorem HasLineEnds.unique {s t t' : List Char} (h : HasLineEnds s t) (h' : HasLineEnds s t') : t = t' := by
  induction h generalizing t' with
  | nil =>
    cases h'
    rfl
  | pair _ ih =>
    cases h' with
    | pair h' => rw [ih h']
    | single hs => simp at hs
    | plain hc => exact absurd rfl hc
  | single hs _ ih =>
    cases h' with
    | pair => simp at hs
    | single _ h' => rw [ih h']
    | plain hc => exact absurd rfl hc
  | plain hc _ ih =>
    cases h' with
    | pair => exact absurd rfl hc
    | single => exact absurd rfl hc
    | plain _ h' => rw [ih h']

theorem hasLineEnds_unifyBreaks (s : List Char) : HasLineEnds s (unifyBreaks s) := by
  suffices h : ∀ done, ∃ t, unifyBreaksFrom done s = done.reverse ++ t ∧ HasLineEnds s t by
    obtain ⟨t, ht, hs⟩ := h []
    rwa [unifyBreaks, ht]
  intro done
  fun_induction unifyBreaksFrom done s with
  | case1 done => exact ⟨[], by simp, .nil⟩
  | case2 done rest ih =>
    obtain ⟨t, ht, hs⟩ := ih
    exact ⟨'\n' :: t, by simpa using ht, .pair hs⟩
  | case3 done c rest hne ih =>
    obtain ⟨t, ht, hs⟩ := ih
    by_cases hc : c = '\r'
    · subst hc
      refine ⟨'\n' :: t, by simpa using ht, .single ?_ hs⟩
      intro hhead
      obtain ⟨more, rfl⟩ := List.head?_eq_some_iff.1 hhead
      exact hne more rfl rfl
    · exact ⟨c :: t, by simpa [hc] using ht, .plain hc hs⟩

theorem hasLineEnds_iff {s t : List Char} : HasLineEnds s t ↔ t = unifyBreaks s :=
  ⟨fun h => h.unique (hasLineEnds_unifyBreaks s), fun h => h ▸ hasLineEnds_unifyBreaks s⟩

/-! ### The size of what is read -/

/-- The number of bytes in which characters are stored. -/
def storedSize (s : List Char) : Nat :=
  (s.map Char.utf8Size).sum

theorem storedSize_cons (c : Char) (s : List Char) : storedSize (c :: s) = c.utf8Size + storedSize s := by
  simp [storedSize]

theorem storedSize_reverse (s : List Char) : storedSize s.reverse = storedSize s := by
  simp [storedSize]

theorem length_encode_ofList (s : List Char) : (encode (String.ofList s)).length = storedSize s := by
  simp [encode, storedSize, List.length_flatMap]

/-- Line feeds take up no more bytes than what they stand for. -/
theorem HasLineEnds.storedSize_le {s t : List Char} (h : HasLineEnds s t) : storedSize t ≤ storedSize s := by
  have hreturn : '\r'.utf8Size = 1 := by decide
  have hfeed : '\n'.utf8Size = 1 := by decide
  induction h with
  | nil => exact Nat.le_refl _
  | pair _ ih => simp only [storedSize_cons]; omega
  | single _ _ ih => simp only [storedSize_cons]; omega
  | plain _ _ ih => simp only [storedSize_cons]; omega

/-- The code points below this bound are stored in at most the given number of bytes. -/
def codeBound : Nat → Nat
  | 0 => 0
  | 1 => 0x80
  | 2 => 0x800
  | 3 => 0x10000
  | _ => 0x200000

theorem utf8Size_le {c : Char} {size : Nat} (h : c.toNat < codeBound size) : c.utf8Size ≤ size := by
  rw [← String.length_utf8EncodeChar]
  unfold String.utf8EncodeChar
  rw [← Char.toNat]
  dsimp only
  match size with
  | 0 => exact absurd h (Nat.not_lt_zero _)
  | 1 | 2 | 3 =>
    simp only [codeBound] at h
    split_ifs <;> simp only [List.length_cons, List.length_nil] <;> omega
  | size + 4 => split_ifs <;> simp only [List.length_cons, List.length_nil] <;> omega

theorem toNat_ofNat_le (code : Nat) : (Char.ofNat code).toNat ≤ code := by
  by_cases h : code.isValidChar
  · rw [Char.ofNat, dif_pos h]
    exact Nat.le_of_eq rfl
  · rw [Char.ofNat, dif_neg h]
    exact Nat.zero_le _

/-- A sequence of which `held` bytes have been read: whatever follows, its code point is small enough for all bytes of
the sequence. -/
structure Pending.HasRead (p : Pending) (held : Nat) : Prop where
  needed_pos : 0 < p.needed
  high_le : p.high ≤ 0xBF
  bits_lt : (p.bits + 1) * 64 ^ p.needed ≤ codeBound (held + p.needed)

/-- What has been read takes up at most `n` bytes, those of the sequence under way included. -/
def Decoding.Fits (n : Nat) (d : Decoding) : Prop :=
  ∃ held, storedSize d.done + held ≤ n ∧ ∀ p ∈ d.pending, p.HasRead held

namespace Decoding

/-- A byte that starts a sequence leaves room for the character of the sequence. -/
theorem fits_start {n : Nat} {done : List Char} (h : storedSize done ≤ n) (b : UInt8) :
    (start done b).Fits (n + 1) := by
  have hpending {needed low high bits : Nat} (hneeded : 0 < needed) (hhigh : high ≤ 0xBF)
      (hbits : (bits + 1) * 64 ^ needed ≤ codeBound (1 + needed)) :
      Fits (n + 1) ⟨done, some ⟨needed, low, high, bits⟩⟩ :=
    ⟨1, Nat.succ_le_succ h, by simpa using ⟨hneeded, hhigh, hbits⟩⟩
  unfold start
  dsimp only
  split_ifs with h1 h2 h3 h4 h5 h6 h7 h8
  · refine ⟨0, ?_, by simp⟩
    have hsize : (Char.ofNat b.toNat).utf8Size ≤ 1 := utf8Size_le ((toNat_ofNat_le _).trans_lt h1)
    rw [storedSize_cons]
    omega
  · simp only [Bool.and_eq_true, decide_eq_true_eq] at h2
    exact hpending (by decide) (by decide) (by simp only [codeBound]; omega)
  · exact hpending (by decide) (by decide) (by decide)
  · exact hpending (by decide) (by decide) (by simp only [codeBound]; omega)
  · simp only [Bool.and_eq_true, decide_eq_true_eq] at h5
    exact hpending (by decide) (by decide) (by simp only [codeBound]; omega)
  · exact hpending (by decide) (by decide) (by decide)
  · simp only [Bool.and_eq_true, decide_eq_true_eq] at h7
    exact hpending (by decide) (by decide) (by simp only [codeBound]; omega)
  · exact hpending (by decide) (by decide) (by simp only [codeBound]; omega)
  · exact ⟨0, by simp; omega, by simp⟩

theorem Fits.step {n : Nat} {d : Decoding} (h : d.Fits n) (b : UInt8) : (d.step b).Fits (n + 1) := by
  obtain ⟨done, pending⟩ := d
  obtain ⟨held, hsize, hread⟩ := h
  cases pending with
  | none => exact fits_start (Nat.le_of_add_right_le hsize) b
  | some p =>
    obtain ⟨needed, low, high, bits⟩ := p
    obtain ⟨hneeded, hhigh, hbits⟩ := hread _ rfl
    dsimp only at hsize hneeded hhigh hbits
    unfold Decoding.step
    dsimp only
    split
    · rename_i hb
      simp only [Bool.and_eq_true, decide_eq_true_eq] at hb
      obtain ⟨needed, rfl⟩ := Nat.exists_eq_succ_of_ne_zero hneeded.ne'
      have hnext : (64 * bits + (b.toNat - 0x80) + 1) * 64 ^ needed ≤ codeBound (held + 1 + needed) := by
        calc (64 * bits + (b.toNat - 0x80) + 1) * 64 ^ needed
          _ ≤ (64 * (bits + 1)) * 64 ^ needed := Nat.mul_le_mul_right _ (by omega)
          _ = (bits + 1) * 64 ^ (needed + 1) := by ring
          _ ≤ codeBound (held + (needed + 1)) := hbits
          _ = codeBound (held + 1 + needed) := by congr 1; omega
      split
      · rename_i hlast
        obtain rfl : needed = 0 := by simpa using hlast
        have hcode : (Char.ofNat (64 * bits + (b.toNat - 0x80))).toNat < codeBound (held + 1) :=
          (toNat_ofNat_le _).trans_lt (by simpa only [pow_zero, Nat.mul_one, Nat.lt_iff_add_one_le] using hnext)
        have hchar := utf8Size_le hcode
        exact ⟨0, by simp only [storedSize_cons]; omega, by simp⟩
      · rename_i hmore
        have hpos : 0 < needed := by
          rw [Nat.succ_eq_add_one] at hmore
          omega
        refine ⟨held + 1, by dsimp only; omega, ?_⟩
        simpa using ⟨hpos, Nat.le_refl _, hnext⟩
    · exact fits_start (Nat.le_of_add_right_le hsize) b

end Decoding

/-- The characters of a byte list are stored in no more bytes. -/
theorem storedSize_decode_le (bytes : List UInt8) : storedSize (decode bytes) ≤ bytes.length := by
  suffices h : ∀ (n : Nat) (d : Decoding), d.Fits n → (bytes.foldl Decoding.step d).Fits (n + bytes.length) by
    obtain ⟨held, hsize, -⟩ := h 0 ⟨[], none⟩ ⟨0, by simp [storedSize], by simp⟩
    rw [decode, storedSize_reverse]
    omega
  induction bytes with
  | nil => exact fun n d hd => hd
  | cons b bytes ih =>
    intro n d hd
    have hrest := ih (n + 1) (d.step b) (hd.step b)
    rwa [Nat.add_right_comm, Nat.add_assoc] at hrest

theorem length_encode_readBytes_le (bytes : List UInt8) : (encode (readBytes bytes)).length ≤ bytes.length := by
  rw [readBytes, length_encode_ofList]
  exact (hasLineEnds_iff.2 rfl).storedSize_le.trans (storedSize_decode_le bytes)

end Semblance.Text
