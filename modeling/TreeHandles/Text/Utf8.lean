/-!
# Decoding UTF-8

A character is encoded by a first byte, which tells the ranges that the following bytes must lie
in, and by one to three following bytes.  Bytes are decoded one at a time; what is still owed to
the character that was begun is a list of ranges.

**Results.**
* `decodeFrom_pending`: bytes that end inside a character are incomplete, with everything before
  that character valid.
-/

namespace TreeHandles
namespace Text

/-- Where and how bytes fail to encode a text: the length of the longest valid part at their
start, and the number of bytes after it that begin a character which the next byte breaks, or none
if they end first. -/
structure Utf8Error where
  validLength : Nat
  brokenLength : Option Nat
  deriving DecidableEq, Repr

/-- The words of a decoding error. -/
def Utf8Error.message (e : Utf8Error) : String :=
  match e.brokenLength with
  | some n =>
      "invalid utf-8 sequence of " ++ n.repr ++ " bytes from index " ++ e.validLength.repr
  | none => "incomplete utf-8 byte sequence from index " ++ e.validLength.repr

/-- A closed range of bytes. -/
structure ByteRange where
  low : UInt8
  high : UInt8
  deriving DecidableEq, Repr

/-- Whether a byte lies in a range. -/
def ByteRange.contains (r : ByteRange) (b : UInt8) : Bool := r.low ≤ b && b ≤ r.high

/-- The range of the bytes that continue a character in general. -/
def continuation : ByteRange := ⟨0x80, 0xbf⟩

/-- The ranges of the bytes that must follow a first byte, and the bits that it contributes.  The
second byte is held to a narrower range where shorter encodings, surrogates or numbers beyond the
last character would come out. -/
def firstByte? (b : UInt8) : Option (List ByteRange × Nat) :=
  if b < 0x80 then some ([], b.toNat)
  else if b < 0xc2 then none
  else if b < 0xe0 then some ([continuation], b.toNat - 0xc0)
  else if b < 0xf0 then
    let second : ByteRange :=
      if b = 0xe0 then ⟨0xa0, 0xbf⟩ else if b = 0xed then ⟨0x80, 0x9f⟩ else continuation
    some ([second, continuation], b.toNat - 0xe0)
  else if b < 0xf5 then
    let second : ByteRange :=
      if b = 0xf0 then ⟨0x90, 0xbf⟩ else if b = 0xf4 then ⟨0x80, 0x8f⟩ else continuation
    some ([second, continuation, continuation], b.toNat - 0xf0)
  else none

/-- The character that was begun: the ranges of the bytes that it is owed, the number of bytes
seen of it, and the bits that they contribute. -/
structure Pending where
  owed : List ByteRange
  seen : Nat
  bits : Nat
  deriving DecidableEq, Repr

/-- No character was begun. -/
def Pending.none : Pending := ⟨[], 0, 0⟩

/-- Decodes bytes after a valid part and a character that was begun. -/
def decodeFrom (valid : Nat) (pending : Pending) : List UInt8 → Except Utf8Error (List Char)
  | [] => if pending.owed.isEmpty then .ok [] else .error ⟨valid, Option.none⟩
  | b :: rest =>
      match pending.owed with
      | [] =>
          match firstByte? b with
          | none => .error ⟨valid, some 1⟩
          | some ([], bits) => (decodeFrom (valid + 1) .none rest).map (Char.ofNat bits :: ·)
          | some (owed, bits) => decodeFrom valid ⟨owed, 1, bits⟩ rest
      | range :: owed =>
          let bits := pending.bits * 64 + (b.toNat - 0x80)
          if !range.contains b then .error ⟨valid, some pending.seen⟩
          else if owed.isEmpty then
            (decodeFrom (valid + pending.seen + 1) .none rest).map (Char.ofNat bits :: ·)
          else decodeFrom valid ⟨owed, pending.seen + 1, bits⟩ rest

/-- The text that bytes encode, or where they fail to encode one. -/
def decodeUtf8 (bytes : List UInt8) : Except Utf8Error String :=
  (decodeFrom 0 .none bytes).map String.ofList

theorem decodeFrom_pending (valid : Nat) {pending : Pending} (h : pending.owed ≠ []) :
    decodeFrom valid pending [] = .error ⟨valid, none⟩ := by
  simp [decodeFrom, h]

end Text

end TreeHandles
