import Semblance.Proofs.Submission.Sizes
import Semblance.Proofs.Text.Decoding

/-!
# Sources in normal form

Reading brings the bytes of a file into a normal form: a text without carriage returns that is stored in no more bytes
and that is read back as it is (`readSource_normalizes`).  A text that was stored exactly is only changed in its line
ends.
-/

namespace Semblance

open Text

/-- A file within the limit is read, whatever its bytes are, as a text in normal form. -/
theorem readSource_normalizes {d : Disk} {path : RawText} {bytes : List UInt8} {limit : Number}
    (hfile : d.find path = .ok (.file bytes)) (hsize : limit.isBelow bytes.length = false) :
    ∃ content, readSource d path (.ok limit) = .ok (.ok content) ∧ '\r' ∉ content.toList ∧
      (encode content).length ≤ bytes.length ∧
      (∀ (d' : Disk) (path' : RawText), d'.find path' = .ok (.file (encode content)) →
        readSource d' path' (.ok limit) = .ok (.ok content)) ∧
      ∀ text, bytes = encode text → HasLineEnds text.toList content.toList := by
  have hreturn : '\r' ∉ (readBytes bytes).toList := by
    rw [readBytes, String.toList_ofList]
    exact return_notMem_unifyBreaks _
  have hlength := length_encode_readBytes_le bytes
  refine ⟨readBytes bytes, ?_, hreturn, hlength, ?_, ?_⟩
  · rw [readSource_of_find hfile, if_neg (by simp [hsize])]
  · intro d' path' hstored
    have hsmall : limit.isBelow (encode (readBytes bytes)).length = false := by
      rw [← Bool.not_eq_true] at hsize ⊢
      exact mt (Number.isBelow_mono (Int.ofNat_le.2 hlength)) hsize
    rw [readSource_of_find hstored, if_neg (by simp [hsmall]), readBytes_encode hreturn]
  · rintro text rfl
    rw [readBytes, decode_encode, String.toList_ofList]
    exact hasLineEnds_iff.2 rfl

/-- Bytes that are no text, and a line end that comes about only because they are dropped. -/
def brokenBytes : List UInt8 :=
  [0x61, 0x0D, 0xE2, 0x82, 0x0A, 0xF0, 0x9F, 0x62, 0xC0, 0x0D, 0xED, 0xA0, 0x80, 0x63]

theorem readSource_normalizes_broken :
    let d : Disk := { tree := .folder [("1.js", .file brokenBytes)] }
    d.find "1.js" = .ok (.file brokenBytes) ∧ (Number.whole 14).isBelow brokenBytes.length = false ∧
      ∃ content, readSource d "1.js" (.ok (.whole 14)) = .ok (.ok content) ∧ '\r' ∉ content.toList ∧
        (encode content).length ≤ 14 ∧ content = "a\nb\nc" := by
  intro d
  have hfile : d.find "1.js" = .ok (.file brokenBytes) := by rfl
  have hsize : (Number.whole 14).isBelow brokenBytes.length = false := by decide
  obtain ⟨content, hread, hreturn, hlength, -, -⟩ := readSource_normalizes hfile hsize
  refine ⟨hfile, hsize, content, hread, hreturn, hlength, ?_⟩
  have hvalue : readBytes brokenBytes = "a\nb\nc" := by decide +kernel
  rw [readSource_of_find hfile, hsize, hvalue] at hread
  exact (Except.ok.inj (Except.ok.inj hread)).symm

end Semblance
