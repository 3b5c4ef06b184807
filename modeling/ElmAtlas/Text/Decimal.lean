/-!
# Decimal numerals

The canonical numeral of a natural number: ASCII digits, no sign and no leading
zero.  `readNatural?` accepts canonical numerals only, so a number has exactly
one text.
-/

namespace ElmAtlas.Text

/-- The canonical decimal numeral of a number. -/
def natural (number : Nat) : List Char :=
  Nat.toDigits 10 number

def digitValue (character : Char) : Nat :=
  character.toNat - '0'.toNat

/-- The number that a run of digits denotes, most significant digit first. -/
def digitsValue (digits : List Char) : Nat :=
  digits.foldl (fun value digit => 10 * value + digitValue digit) 0

/-- Reads a canonical numeral. -/
def readNatural? (characters : List Char) : Option Nat :=
  match characters with
  | [] => none
  | ['0'] => some 0
  | '0' :: _ => none
  | digits => if digits.all Char.isDigit then some (digitsValue digits) else none

end ElmAtlas.Text
