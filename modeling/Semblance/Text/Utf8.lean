import Semblance.Text.Hex
import Semblance.Text.Lines

/-!
# UTF-8

Texts are stored as UTF-8.  Reading is lenient: bytes that are no part of a well-formed sequence are passed over.
After a sequence breaks off, the byte that broke it is read anew, so a bad sequence loses only its own beginning.
Strict reading says instead which bytes are the first that are no part of a well-formed sequence, and why.
-/

namespace Semblance.Text

/-- The bytes of a text. -/
def encode (text : String) : List UInt8 :=
  text.toList.flatMap String.utf8EncodeChar

/-- A sequence of bytes that is not complete: how many bytes it still needs, what the next one may be, and the bits
read so far. -/
structure Pending where
  needed : Nat
  low : Nat
  high : Nat
  bits : Nat
  deriving DecidableEq, Repr

/-- What has been read: the characters (reversed), and the sequence that is under way. -/
structure Decoding where
  done : List Char
  pending : Option Pending
  deriving DecidableEq, Repr

/-- Reads a byte where a sequence may start.  The second byte of a sequence is bounded so that no character has a
longer form than needed, is a surrogate or lies beyond the last code point. -/
def Decoding.start (done : List Char) (b : UInt8) : Decoding :=
  let n := b.toNat
  let begin (needed low high bits : Nat) : Decoding := ⟨done, some ⟨needed, low, high, bits⟩⟩
  if n < 0x80 then ⟨Char.ofNat n :: done, none⟩
  else if 0xC2 ≤ n && n ≤ 0xDF then begin 1 0x80 0xBF (n - 0xC0)
  else if n = 0xE0 then begin 2 0xA0 0xBF 0
  else if n = 0xED then begin 2 0x80 0x9F (n - 0xE0)
  else if 0xE1 ≤ n && n ≤ 0xEF then begin 2 0x80 0xBF (n - 0xE0)
  else if n = 0xF0 then begin 3 0x90 0xBF 0
  else if 0xF1 ≤ n && n ≤ 0xF3 then begin 3 0x80 0xBF (n - 0xF0)
  else if n = 0xF4 then begin 3 0x80 0x8F (n - 0xF0)
  else ⟨done, none⟩

/-- Reads a byte. -/
def Decoding.step (d : Decoding) (b : UInt8) : Decoding :=
  match d.pending with
  | none => start d.done b
  | some p =>
    if p.low ≤ b.toNat && b.toNat ≤ p.high then
      let bits := 64 * p.bits + (b.toNat - 0x80)
      if p.needed = 1 then ⟨Char.ofNat bits :: d.done, none⟩
      else ⟨d.done, some ⟨p.needed - 1, 0x80, 0xBF, bits⟩⟩
    else start d.done b

/-- The characters of a byte list, without what is ill-formed. -/
def decode (bytes : List UInt8) : List Char :=
  (bytes.foldl Decoding.step ⟨[], none⟩).done.reverse

/-- The text that a byte list stores, with line feeds as its only line ends. -/
def readBytes (bytes : List UInt8) : String :=
  String.ofList (unifyBreaks (decode bytes))

/-- Why some bytes are no sequence. -/
inductive SequenceFault where
  | badStart
  | badContinuation
  | unfinished
  deriving DecidableEq, Repr

/-- What is said about the fault. -/
def SequenceFault.text : SequenceFault → String
  | badStart => "invalid start byte"
  | badContinuation => "invalid continuation byte"
  | unfinished => "unexpected end of data"

/-- Bytes that are no sequence: the place and the value of the first of them, and their number. -/
structure IllFormed where
  fault : SequenceFault
  position : Nat
  first : UInt8
  count : Nat
  deriving DecidableEq, Repr

/-- What is said about ill-formed bytes. -/
def IllFormed.message (e : IllFormed) : String :=
  let last := e.position + e.count - 1
  let place :=
    if e.count = 1 then
      let byte := String.ofList (hex 2 e.first.toNat)
      s!"byte 0x{byte} in position {e.position}"
    else s!"bytes in position {e.position}-{last}"
  s!"'utf-8' codec can't decode {place}: {e.fault.text}"

/-- The first ill-formed bytes from the byte at `position` on, where `count` bytes of the sequence that is under way,
and `first` as their first, have been read. -/
def illFormedFrom (d : Decoding) (position count : Nat) (first : UInt8) : List UInt8 → Option IllFormed
  | [] => d.pending.map fun _ => ⟨.unfinished, position - count, first, count⟩
  | b :: rest =>
    let next := d.step b
    match d.pending with
    | none =>
      if 0x80 ≤ b.toNat && next.pending.isNone then some ⟨.badStart, position, b, 1⟩
      else illFormedFrom next (position + 1) 1 b rest
    | some p =>
      if p.low ≤ b.toNat && b.toNat ≤ p.high then illFormedFrom next (position + 1) (count + 1) first rest
      else some ⟨.badContinuation, position - count, first, count⟩

/-- The text that a byte list stores exactly, or its first ill-formed bytes. -/
def decodeStrict? (bytes : List UInt8) : Except IllFormed String :=
  match illFormedFrom ⟨[], none⟩ 0 0 0 bytes with
  | some e => .error e
  | none => .ok (String.ofList (decode bytes))

end Semblance.Text
