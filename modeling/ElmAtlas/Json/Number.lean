import ElmAtlas.Double
import ElmAtlas.Text.Decimal

/-!
# Numbers of documents

A numeral without fraction and exponent that fits a 64-bit word is an integer;
every other numeral is a double.  The digits of a double are first gathered
into a 64-bit significand; digits that no longer fit only move the exponent.
-/

namespace ElmAtlas.Json

inductive Number where
  | natural (value : Nat)
  | negative (magnitude : Nat)
  | double (isNegative : Bool) (magnitude : Magnitude)
  deriving DecidableEq, Repr

/-- The parts of a numeral as written. -/
structure Numeral where
  isNegative : Bool
  integer : List Char
  fraction : List Char
  exponent : Option (Bool × List Char)
  deriving DecidableEq, Repr

namespace Numeral

/-- Appends digits to a significand while it stays below `2 ^ 64`; returns the
digits left over. -/
def gather : Nat → List Char → Nat × List Char
  | significand, [] => (significand, [])
  | significand, digit :: digits =>
      let next := 10 * significand + Text.digitValue digit
      if next < UInt64.size then gather next digits else (significand, digit :: digits)

/-- The double `significand * 10 ^ power`, if it is finite. -/
def double? (isNegative : Bool) (significand : Nat) (power : Int) : Option Number := do
  let rounded ← Magnitude.ofNat? significand
  return .double isNegative (← rounded.timesPowerOfTen? power)

/-- The number of a numeral; none when it is too large for a double. -/
def number? (numeral : Numeral) : Option Number :=
  let (whole, skipped) := gather 0 numeral.integer
  let (significand, ignored) := gather whole numeral.fraction
  let power : Int :=
    (skipped.length : Int) - ((numeral.fraction.length - ignored.length : Nat) : Int)
  match numeral.exponent with
  | some (down, digits) =>
      let written := Text.digitsValue digits
      if written < Nat.pow 2 31 then
        double? numeral.isNegative significand
          (if down then power - (written : Int) else power + (written : Int))
      else if significand = 0 || down then
        some (.double numeral.isNegative .zero)
      else
        none
  | none =>
      if !numeral.fraction.isEmpty || !skipped.isEmpty then
        double? numeral.isNegative significand power
      else if !numeral.isNegative then
        some (.natural significand)
      else if 0 < significand && significand ≤ Nat.pow 2 63 then
        some (.negative significand)
      else
        double? true significand 0

end Numeral

namespace Number

/-- How messages name a number that was not expected. -/
def described : Number → String
  | natural value => s!"integer `{value}`"
  | negative magnitude => s!"integer `-{magnitude}`"
  | double isNegative magnitude =>
      let sign := if isNegative then "-" else ""
      s!"floating point `{sign}{magnitude.text}`"

end Number

end ElmAtlas.Json
