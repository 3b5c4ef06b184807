/-!
# Finite double-precision magnitudes

A magnitude is `mantissa * 2 ^ exponent` with at most 53 bits of mantissa.  All
arithmetic is exact arithmetic on natural numbers followed by one rounding to
the nearest magnitude, ties to the even mantissa.  The module also finds the
shortest decimal that rounds to a magnitude.
-/

namespace ElmAtlas

structure Magnitude where
  mantissa : Nat
  exponent : Int
  deriving DecidableEq, Repr

/-- The ratio `numerator / denominator` of natural numbers. -/
structure Ratio where
  numerator : Nat
  denominator : Nat

namespace Ratio

/-- Multiplies by a power of a base, which may be negative. -/
def scale (ratio : Ratio) (base : Nat) (power : Int) : Ratio :=
  if 0 ≤ power then
    ⟨ratio.numerator * base.pow power.toNat, ratio.denominator⟩
  else
    ⟨ratio.numerator, ratio.denominator * base.pow (-power).toNat⟩

def floor (ratio : Ratio) : Nat :=
  ratio.numerator / ratio.denominator

def lessThan (left right : Ratio) : Bool :=
  left.numerator * right.denominator < right.numerator * left.denominator

def atMost (left right : Ratio) : Bool :=
  left.numerator * right.denominator ≤ right.numerator * left.denominator

def distance (left right : Ratio) : Ratio :=
  let leftScaled := left.numerator * right.denominator
  let rightScaled := right.numerator * left.denominator
  ⟨(leftScaled - rightScaled) + (rightScaled - leftScaled),
    left.denominator * right.denominator⟩

end Ratio

namespace Magnitude

def zero : Magnitude :=
  ⟨0, 0⟩

def isZero (magnitude : Magnitude) : Bool :=
  magnitude.mantissa == 0

def toRatio (magnitude : Magnitude) : Ratio :=
  Ratio.scale ⟨magnitude.mantissa, 1⟩ 2 magnitude.exponent

/-- The nearest magnitude of a ratio; none when the ratio is too large. -/
def ofRatio? (ratio : Ratio) : Option Magnitude :=
  if ratio.numerator = 0 then
    some zero
  else
    let guess : Int :=
      (Nat.log2 ratio.numerator : Int) - (Nat.log2 ratio.denominator : Int) - 52
    let fitted := if (ratio.scale 2 (-guess)).floor < Nat.pow 2 52 then guess - 1 else guess
    let exponent := max fitted (-1074)
    let scaled := ratio.scale 2 (-exponent)
    let quotient := scaled.floor
    let twiceRest := 2 * (scaled.numerator % scaled.denominator)
    let rounded :=
      if scaled.denominator < twiceRest ||
          (scaled.denominator == twiceRest && quotient % 2 == 1) then
        quotient + 1
      else
        quotient
    let result : Magnitude :=
      if rounded = Nat.pow 2 53 then ⟨Nat.pow 2 52, exponent + 1⟩ else ⟨rounded, exponent⟩
    if 971 < result.exponent then none else some result

def ofNat? (number : Nat) : Option Magnitude :=
  ofRatio? ⟨number, 1⟩

def times? (left right : Magnitude) : Option Magnitude :=
  ofRatio? (Ratio.scale ⟨left.mantissa * right.mantissa, 1⟩ 2 (left.exponent + right.exponent))

def over? (left right : Magnitude) : Option Magnitude :=
  ofRatio? (Ratio.scale ⟨left.mantissa, right.mantissa⟩ 2 (left.exponent - right.exponent))

/-- Multiplies by the magnitude nearest to a power of ten.  Powers below
`10 ^ (-308)` are applied in several steps, each rounded. -/
def timesPowerOfTen? (magnitude : Magnitude) (power : Int) : Option Magnitude :=
  if magnitude.isZero then
    some zero
  else if 308 < power then
    none
  else if 0 ≤ power then do
    times? magnitude (← ofNat? (Nat.pow 10 power.toNat))
  else if -308 ≤ power then do
    over? magnitude (← ofNat? (Nat.pow 10 (-power).toNat))
  else do
    let reduced ← over? magnitude (← ofNat? (Nat.pow 10 308))
    timesPowerOfTen? reduced (power + 308)
  termination_by power.natAbs
  decreasing_by omega

/-- The decimals that round to a magnitude lie between these two ratios. -/
def bounds (magnitude : Magnitude) : Ratio × Ratio :=
  let quarter (count : Nat) := Ratio.scale ⟨count, 1⟩ 2 (magnitude.exponent - 2)
  let below :=
    if magnitude.mantissa == Nat.pow 2 52 && -1074 < magnitude.exponent then 1 else 2
  (quarter (4 * magnitude.mantissa - below), quarter (4 * magnitude.mantissa + 2))

/-- Whether a decimal rounds to a magnitude; the bounds themselves do so when
the mantissa is even. -/
def admits (magnitude : Magnitude) (decimal : Ratio) : Bool :=
  let (low, high) := magnitude.bounds
  if magnitude.mantissa % 2 == 0 then
    low.atMost decimal && decimal.atMost high
  else
    low.lessThan decimal && decimal.lessThan high

/-- The power of ten of the leading digit of a positive ratio below one. -/
def leadingPower (ratio : Ratio) : (fuel : Nat) → Nat → Int
  | 0, places => -(places : Int)
  | fuel + 1, places =>
      if 1 ≤ (ratio.scale 10 (places : Int)).floor then -(places : Int)
      else leadingPower ratio fuel (places + 1)

/-- A decimal `digits * 10 ^ power`. -/
structure Decimal where
  digits : Nat
  power : Int
  deriving DecidableEq, Repr

/-- Drops zeros at the end of the digits. -/
def stripZeros : (fuel : Nat) → Decimal → Decimal
  | 0, decimal => decimal
  | fuel + 1, decimal =>
      if decimal.digits != 0 && decimal.digits % 10 == 0 then
        stripZeros fuel ⟨decimal.digits / 10, decimal.power + 1⟩
      else
        decimal

/-- Looks on ever finer decimal grids for a neighbour that rounds to the
magnitude; the nearer of two neighbours wins, and the even one in a tie. -/
def searchShortest (magnitude : Magnitude) (exact : Ratio) (leading : Int) :
    (remaining : Nat) → (places : Nat) → Decimal
  | 0, places =>
      let power := leading - (places : Int)
      ⟨(exact.scale 10 (-power)).floor, power⟩
  | remaining + 1, places =>
      let power := leading - (places : Int)
      let lower := (exact.scale 10 (-power)).floor
      let ratio (digits : Nat) := Ratio.scale ⟨digits, 1⟩ 10 power
      let lowerFits := magnitude.admits (ratio lower)
      let upperFits := magnitude.admits (ratio (lower + 1))
      if lowerFits && upperFits then
        let toLower := exact.distance (ratio lower)
        let toUpper := exact.distance (ratio (lower + 1))
        if toLower.lessThan toUpper || (toLower.atMost toUpper && lower % 2 == 0) then
          ⟨lower, power⟩
        else
          ⟨lower + 1, power⟩
      else if lowerFits then ⟨lower, power⟩
      else if upperFits then ⟨lower + 1, power⟩
      else searchShortest magnitude exact leading remaining (places + 1)

/-- The shortest decimal that rounds to a magnitude. -/
def shortest (magnitude : Magnitude) : Decimal :=
  let exact := magnitude.toRatio
  let leading : Int :=
    if 1 ≤ exact.floor then ((Nat.toDigits 10 exact.floor).length : Int) - 1
    else leadingPower exact 400 1
  stripZeros 20 (searchShortest magnitude exact leading 17 0)

/-- Positional between `10 ^ (-5)` and `10 ^ 16`, with a signed exponent
elsewhere; a whole number keeps `.0` in positional form. -/
def text (magnitude : Magnitude) : String :=
  if magnitude.isZero then "0.0"
  else
    let decimal := magnitude.shortest
    let digits := Nat.toDigits 10 decimal.digits
    let point : Int := (digits.length : Int) + decimal.power
    if 0 ≤ decimal.power && point ≤ 16 then
      String.ofList (digits ++ List.replicate decimal.power.toNat '0' ++ ['.', '0'])
    else if 0 < point && point ≤ 16 then
      String.ofList (digits.take point.toNat ++ ['.'] ++ digits.drop point.toNat)
    else if -5 < point && point ≤ 0 then
      String.ofList (['0', '.'] ++ List.replicate (-point).toNat '0' ++ digits)
    else
      let exponent := if 0 < point then "+" ++ toString (point - 1) else toString (point - 1)
      match digits with
      | [digit] => String.ofList [digit, 'e'] ++ exponent
      | digit :: rest => String.ofList (digit :: '.' :: rest ++ ['e']) ++ exponent
      | [] => "0.0"

end Magnitude

end ElmAtlas
