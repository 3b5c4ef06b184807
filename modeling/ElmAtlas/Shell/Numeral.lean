import ElmAtlas.Text.Octets

/-!
# Numerals

The integer at the start of some octets, with blanks and a sign in front of it.
Where any base is allowed, `0x` begins a hexadecimal and `0` an octal numeral.
-/

namespace ElmAtlas.Shell.Numeral

def isBlank (octet : Char) : Bool :=
  octet == ' ' || ('\t' ≤ octet && octet ≤ '\r')

/-- The value of a digit in a base up to sixteen. -/
def digit? (base : Nat) (octet : Char) : Option Nat :=
  let value :=
    if octet.isDigit then octet.toNat - '0'.toNat
    else if 'a' ≤ octet && octet ≤ 'f' then octet.toNat - 'a'.toNat + 10
    else if 'A' ≤ octet && octet ≤ 'F' then octet.toNat - 'A'.toNat + 10
    else base
  if value < base then some value else none

/-- The digits of a base at the start of some octets: their value and what
follows. -/
def digits (base : Nat) : (value : Nat) → Octets → Nat × Octets
  | value, [] => (value, [])
  | value, octet :: rest =>
      match digit? base octet with
      | some found => digits base (base * value + found) rest
      | none => (value, octet :: rest)

/-- A numeral without a sign; none where no digit stands. -/
def unsigned? (anyBase : Bool) (octets : Octets) : Option (Nat × Octets) :=
  match anyBase, octets with
  | true, '0' :: mark :: digit :: rest =>
      if (mark == 'x' || mark == 'X') && (digit? 16 digit).isSome then
        some (digits 16 0 (digit :: rest))
      else some (digits 8 0 octets)
  | true, '0' :: _ => some (digits 8 0 octets)
  | _, octet :: _ => if octet.isDigit then some (digits 10 0 octets) else none
  | _, [] => none

/-- A numeral with blanks and a sign in front of it. -/
def read? (anyBase : Bool) (octets : Octets) : Option (Int × Octets) :=
  match octets.dropWhile isBlank with
  | '-' :: rest => (unsigned? anyBase rest).map fun (value, after) => (-(value : Int), after)
  | '+' :: rest => (unsigned? anyBase rest).map fun (value, after) => ((value : Int), after)
  | rest => (unsigned? anyBase rest).map fun (value, after) => ((value : Int), after)

def least : Int := -9223372036854775808

def greatest : Int := 9223372036854775807

def isInRange (value : Int) : Bool :=
  least ≤ value && value ≤ greatest

def clamp (value : Int) : Int :=
  if value < least then least else if greatest < value then greatest else value

def decimal? (octets : Octets) : Option Int :=
  match read? false octets with
  | some (value, rest) =>
      if rest.all isBlank && isInRange value then some value else none
  | none => none

/-- A count: a decimal numeral that is not negative and not too large. -/
def count? (octets : Octets) : Option Nat :=
  (decimal? octets).bind fun value =>
    if 0 ≤ value && value ≤ 2147483647 then some value.toNat else none

end ElmAtlas.Shell.Numeral
