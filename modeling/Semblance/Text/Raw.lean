import Semblance.Text.Blank
import Semblance.Text.Hex

/-!
# Names as a file system gives them

A file system gives names as bytes.  Read as UTF-8, a name is a text in which a byte stays as it is where it is no
part of a character.  Such stray bytes can be compared and put together with other text, and a message in quotes shows
them by number, but a text with stray bytes cannot be encoded: `decoded` gives the text, or the stray bytes that are
in the way.
-/

namespace Semblance

/-- A character, or a byte from `0x80` on that is no part of one, given by its distance from `0x80`. -/
inductive RawChar where
  | char (c : Char)
  | stray (b : Fin 128)
  deriving DecidableEq, Repr, Inhabited

namespace RawChar

instance : Coe Char RawChar := ⟨char⟩

/-- The number by which a character is compared: stray bytes take the place of low surrogates, which are no
characters. -/
def code : RawChar → Nat
  | char c => c.toNat
  | stray b => 0xDC80 + b

instance : LT RawChar := ⟨fun a b => a.code < b.code⟩

instance (a b : RawChar) : Decidable (a < b) := inferInstanceAs (Decidable (a.code < b.code))

/-- The number of bytes that a character takes. -/
def byteSize : RawChar → Nat
  | char c => c.utf8Size
  | stray _ => 1

def isStray : RawChar → Bool
  | char _ => false
  | stray _ => true

/-- Whether a character is white space. -/
def isBlank : RawChar → Bool
  | char c => Text.isBlank c
  | stray _ => false

/-- A character as it is shown when stray bytes are shown by other characters. -/
def shown (standIn : Fin 128 → Char) : RawChar → Char
  | char c => c
  | stray b => standIn b

end RawChar

/-- A text that may have stray bytes. -/
abbrev RawText := List RawChar

/-- The first run of stray bytes in a text: its place, the first byte in it, and its length. -/
structure StrayRun where
  position : Nat
  first : Fin 128
  count : Nat
  deriving DecidableEq, Repr

/-- What is said about stray bytes in a text that is to be encoded. -/
def StrayRun.message (s : StrayRun) : String :=
  let last := s.position + s.count - 1
  let place :=
    if s.count = 1 then
      let code := String.ofList ('\\' :: 'u' :: Text.hex 4 (RawChar.stray s.first).code)
      s!"character '{code}' in position {s.position}"
    else s!"characters in position {s.position}-{last}"
  s!"'utf-8' codec can't encode {place}: surrogates not allowed"

namespace RawText

/-- A text without stray bytes. -/
@[coe]
def ofString (s : String) : RawText :=
  s.toList.map RawChar.char

instance : Coe String RawText := ⟨ofString⟩

/-- The number of bytes that a text takes. -/
def byteSize : RawText → Nat
  | [] => 0
  | c :: rest => c.byteSize + byteSize rest

/-- Whether a text is nothing but white space. -/
def isBlank (t : RawText) : Bool :=
  t.all RawChar.isBlank

/-- The text without the white space at its ends. -/
def trimmed (t : RawText) : RawText :=
  ((t.dropWhile RawChar.isBlank).reverse.dropWhile RawChar.isBlank).reverse

/-- The text with other characters for the stray bytes. -/
def shown (standIn : Fin 128 → Char) (t : RawText) : String :=
  String.ofList (t.map (RawChar.shown standIn))

/-- The text with the replacement character for each stray byte. -/
def text (t : RawText) : String :=
  t.shown fun _ => '\ufffd'

/-- The first run of stray bytes, if there is one, in the rest of a text from `position` on. -/
def strayRunFrom (position : Nat) : RawText → Option StrayRun
  | [] => none
  | .char _ :: rest => strayRunFrom (position + 1) rest
  | .stray b :: rest => some ⟨position, b, 1 + (rest.takeWhile RawChar.isStray).length⟩

/-- The text, if all of it can be encoded; otherwise the stray bytes that cannot. -/
def decoded (t : RawText) : Except StrayRun String :=
  match strayRunFrom 0 t with
  | none => .ok t.text
  | some s => .error s

/-- A text into which names are written, from the text for each way of showing stray bytes: where two ways make a
difference, there is a stray byte. -/
def ofShown (write : (RawText → String) → String) : RawText :=
  let standIn (start : Nat) (b : Fin 128) : Char := Char.ofNat (start + b)
  let low := write (shown (standIn 0xE000))
  let high := write (shown (standIn 0xE080))
  List.zipWith (fun a b => if a = b then RawChar.char a else .stray (Fin.ofNat 128 (a.toNat - 0xE000)))
    low.toList high.toList

@[simp] theorem byteSize_append (s t : RawText) : byteSize (s ++ t) = byteSize s + byteSize t := by
  induction s with
  | nil => simp [byteSize]
  | cons c s ih => rw [List.cons_append, byteSize, byteSize, ih, Nat.add_assoc]

/-! ### Texts without stray bytes -/

@[simp] theorem ofString_append (s t : String) : ofString (s ++ t) = ofString s ++ ofString t := by
  simp [ofString]

@[simp] theorem ofString_empty : ofString "" = [] := rfl

@[simp] theorem text_ofString (s : String) : text (ofString s) = s := by
  simp [text, shown, ofString, Function.comp_def, RawChar.shown]

theorem ofString_injective {s t : String} (h : ofString s = ofString t) : s = t := by
  rw [← text_ofString s, h, text_ofString]

@[simp] theorem ofString_inj {s t : String} : ofString s = ofString t ↔ s = t :=
  ⟨ofString_injective, congrArg ofString⟩

@[simp] theorem text_append (s t : RawText) : text (s ++ t) = text s ++ text t := by
  simp [text, shown]

theorem strayRunFrom_eq_none_iff {position : Nat} {t : RawText} :
    strayRunFrom position t = none ↔ ofString t.text = t := by
  induction t generalizing position with
  | nil => simp [strayRunFrom, text, shown]
  | cons c t ih =>
    cases c with
    | char c =>
      rw [strayRunFrom, ih]
      simp [text, shown, ofString, RawChar.shown]
    | stray b => simp [strayRunFrom, text, shown, ofString, RawChar.shown]

/-- A text is decoded exactly if it has no stray bytes. -/
theorem decoded_eq_ok_iff {t : RawText} {s : String} : t.decoded = .ok s ↔ t = ofString s := by
  unfold decoded
  cases h : strayRunFrom 0 t with
  | none =>
    rw [strayRunFrom_eq_none_iff] at h
    constructor
    · rintro ⟨⟩
      exact h.symm
    · rintro rfl
      simp
  | some run =>
    refine ⟨by simp, ?_⟩
    rintro rfl
    have hnone : strayRunFrom 0 (ofString s) = none := by rw [strayRunFrom_eq_none_iff, text_ofString]
    simp [hnone] at h

@[simp] theorem decoded_ofString (s : String) : decoded (ofString s) = .ok s :=
  decoded_eq_ok_iff.2 rfl

end RawText

end Semblance
