import PieSyntax.Text.Basic

/-!
# UTF-8

Bytes are decoded one at a time.  Between characters no byte is owed; inside a character the
decoder knows how many are owed and the range that the next one must lie in, which rules out
overlong forms, surrogates and code points above U+10FFFF at the second byte.

Decoding stops at the first error, which spans the bytes of the character that was begun.
-/

namespace PieSyntax.Utf8

/-- Why bytes are not UTF-8. -/
inductive Reason where
  /-- No character starts with the byte. -/
  | invalidStart
  /-- The byte after the ones named does not go on with the character. -/
  | invalidContinuation
  /-- The bytes end inside a character. -/
  | unexpectedEnd
  deriving DecidableEq, Repr

/-- How a reason is worded. -/
def Reason.message : Reason → String
  | .invalidStart => "invalid start byte"
  | .invalidContinuation => "invalid continuation byte"
  | .unexpectedEnd => "unexpected end of data"

/-- The bytes that could not be decoded: `length` of them from `start`, the first being
`firstByte`. -/
structure DecodeError where
  start : Nat
  length : Nat
  firstByte : UInt8
  reason : Reason
  deriving DecidableEq, Repr

/-- Two lower-case hexadecimal digits. -/
def byteText (b : UInt8) : String :=
  String.ofList [Nat.digitChar (b.toNat / 16), Nat.digitChar (b.toNat % 16)]

/-- The message for bytes that cannot be decoded. -/
def DecodeError.message (e : DecodeError) : String :=
  let place :=
    if e.length = 1 then
      "byte 0x" ++ byteText e.firstByte ++ " in position " ++ toString e.start
    else
      "bytes in position " ++ toString e.start ++ "-" ++ toString (e.start + e.length - 1)
  "'utf-8' codec can't decode " ++ place ++ ": " ++ e.reason.message

/-- A character that has been begun. -/
structure Partial where
  firstByte : UInt8
  /-- Bytes read. -/
  length : Nat
  /-- Bytes still owed. -/
  owed : Nat
  /-- The least value of the next byte. -/
  low : Nat
  /-- The greatest value of the next byte. -/
  high : Nat
  /-- The code point, as far as it is known. -/
  value : Nat

/-- What the first byte of a character announces: the character itself, a character of several
bytes, or nothing. -/
inductive Lead where
  | single (c : Char)
  | several (p : Partial)
  | invalid

/-- Reads the first byte of a character. -/
def lead (b : UInt8) : Lead :=
  let n := b.toNat
  if n < 0x80 then .single (Char.ofNat n)
  else if n < 0xC2 then .invalid
  else if n < 0xE0 then .several ⟨b, 1, 1, 0x80, 0xBF, n - 0xC0⟩
  else if n < 0xF0 then
    .several ⟨b, 1, 2, if n = 0xE0 then 0xA0 else 0x80, if n = 0xED then 0x9F else 0xBF, n - 0xE0⟩
  else if n < 0xF5 then
    .several ⟨b, 1, 3, if n = 0xF0 then 0x90 else 0x80, if n = 0xF4 then 0x8F else 0xBF, n - 0xF0⟩
  else .invalid

/-- Decodes bytes from the given position on.  `begun` is the character that the bytes before
it began, and `done` holds the characters before that one, the last one first. -/
def decodeFrom : List UInt8 → (position : Nat) → (begun : Option Partial) → (done : Text) →
    Except DecodeError Text
  | [], _, none, done => .ok done.reverse
  | [], position, some p, _ =>
    .error ⟨position - p.length, p.length, p.firstByte, .unexpectedEnd⟩
  | b :: bytes, position, none, done =>
    match lead b with
    | .single c => decodeFrom bytes (position + 1) none (c :: done)
    | .several p => decodeFrom bytes (position + 1) (some p) done
    | .invalid => .error ⟨position, 1, b, .invalidStart⟩
  | b :: bytes, position, some p, done =>
    let n := b.toNat
    if p.low ≤ n ∧ n ≤ p.high then
      let value := p.value * 64 + (n - 0x80)
      if p.owed ≤ 1 then decodeFrom bytes (position + 1) none (Char.ofNat value :: done)
      else
        decodeFrom bytes (position + 1)
          (some ⟨p.firstByte, p.length + 1, p.owed - 1, 0x80, 0xBF, value⟩) done
    else .error ⟨position - p.length, p.length, p.firstByte, .invalidContinuation⟩

/-- The text that the bytes encode. -/
def decode (bytes : List UInt8) : Except DecodeError Text := decodeFrom bytes 0 none []

end PieSyntax.Utf8
