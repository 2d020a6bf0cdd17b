import PieSyntax.Text.Ranges

/-!
# Texts

A text is a list of Unicode code points.  Names, lexemes and whole sources are texts, so that
what a reader consumes can be written as one text before another; strings are used for what is
only shown.

A numeral is a run of decimal digits; leading zeros are allowed and count towards its length.
Numerals of more than `maxDigits` digits are refused, because the time to read a numeral grows
with the square of its length.

Messages show a piece of source text in quotes, with an escape for every character that would not
be seen.  The quotes are single unless the text holds a single quote and no double quote, so that
few texts need an escaped quote.  A backslash starts every escape: `\\`, the quote in use, `\n`,
`\r`, `\t`, and the code point of any other unprintable character in two, four or eight
lower-case hexadecimal digits after `x`, `u` or `U`.
-/

namespace PieSyntax

/-- A text is a list of Unicode code points. -/
abbrev Text := List Char

/-- Whether all characters of a text have a property is decided along the text, not by going through
the characters that there are. -/
instance decidableForallMemText (s : Text) (p : Char → Prop) [DecidablePred p] :
    Decidable (∀ ch ∈ s, p ch) :=
  List.decidableBAll p s

instance decidableForallMemOption (o : Option Char) (p : Char → Prop) [DecidablePred p] :
    Decidable (∀ ch ∈ o, p ch) :=
  Option.decidableForallMem o

/-! ## Numerals -/

/-- The most digits a numeral may have. -/
def maxDigits : Nat := 4300

/-- The reason why a numeral was refused: its number of digits. -/
structure NumeralTooLong where
  digits : Nat
  deriving DecidableEq, Repr

/-- The message for a numeral that was refused. -/
def NumeralTooLong.message (e : NumeralTooLong) : String :=
  "Exceeds the limit (" ++ toString maxDigits
    ++ " digits) for integer string conversion: value has " ++ toString e.digits
    ++ " digits; use sys.set_int_max_str_digits() to increase the limit"

/-- The value of a single digit. -/
def digitValue (c : Char) : Nat := c.toNat - '0'.toNat

/-- The value of a run of digits, read from left to right. -/
def numeralValue (digits : Text) : Nat :=
  digits.foldl (fun value c => 10 * value + digitValue c) 0

/-- A further digit multiplies the value by ten. -/
theorem numeralValue_concat (digits : Text) (c : Char) :
    numeralValue (digits ++ [c]) = 10 * numeralValue digits + digitValue c := by
  simp [numeralValue]

/-- The value of a numeral, unless it is too long. -/
def readNumeral (digits : Text) : Except NumeralTooLong Nat :=
  if maxDigits < digits.length then .error ⟨digits.length⟩ else .ok (numeralValue digits)

theorem readNumeral_of_length_le {digits : Text} (h : digits.length ≤ maxDigits) :
    readNumeral digits = .ok (numeralValue digits) :=
  if_neg (Nat.not_lt.mpr h)

theorem readNumeral_eq_ok_iff {digits : Text} {value : Nat} :
    readNumeral digits = .ok value ↔
      digits.length ≤ maxDigits ∧ numeralValue digits = value := by
  rw [readNumeral]
  by_cases hlong : maxDigits < digits.length
  · simp [hlong, Nat.not_le.mpr hlong]
  · simp [hlong, Nat.not_lt.mp hlong]

/-! ## Text in quotes -/

namespace Quoted

/-- The quote that surrounds a text. -/
def delimiter (text : Text) : Char :=
  if '\'' ∈ text ∧ '"' ∉ text then '"' else '\''

/-- The hexadecimal digits of `n`, padded with zeros to `width`. -/
def hexadecimal (width n : Nat) : Text :=
  let digits := Nat.toDigits 16 n
  List.replicate (width - digits.length) '0' ++ digits

/-- An unprintable character by its code point, in the shortest of the three forms that holds
it. -/
def codePointEscape (c : Char) : Text :=
  if c.toNat < 0x100 then '\\' :: 'x' :: hexadecimal 2 c.toNat
  else if c.toNat < 0x10000 then '\\' :: 'u' :: hexadecimal 4 c.toNat
  else '\\' :: 'U' :: hexadecimal 8 c.toNat

/-- One character as it stands between the given quotes. -/
def escapeChar (quote c : Char) : Text :=
  if c = quote ∨ c = '\\' then ['\\', c]
  else if c = '\n' then ['\\', 'n']
  else if c = '\r' then ['\\', 'r']
  else if c = '\t' then ['\\', 't']
  else if isPrintable c then [c]
  else codePointEscape c

/-- A text with its quotes. -/
def encode (text : Text) : Text :=
  let quote := delimiter text
  quote :: text.flatMap (escapeChar quote) ++ [quote]

end Quoted

/-- A string as it is shown in messages. -/
def quoted (s : String) : String := String.ofList (Quoted.encode s.toList)

end PieSyntax
