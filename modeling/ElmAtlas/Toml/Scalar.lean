import ElmAtlas.Double
import ElmAtlas.Text.Decimal
import ElmAtlas.Toml.Value

/-!
# Numbers, truth values and points in time
-/

namespace ElmAtlas.Toml

namespace Scalar

/-- The digits of a run in which single underscores may stand between digits. -/
def digits? (isDigit : Char → Bool) : List Char → Option (List Char)
  | [] => none
  | [digit] => if isDigit digit then some [digit] else none
  | digit :: '_' :: next :: rest =>
      if isDigit digit then (digits? isDigit (next :: rest)).map (digit :: ·) else none
  | digit :: rest =>
      if isDigit digit then (digits? isDigit rest).map (digit :: ·) else none

def splitSign : List Char → Bool × List Char
  | '+' :: rest => (false, rest)
  | '-' :: rest => (true, rest)
  | rest => (false, rest)

/-- Digits that do not begin with a zero unless there is one only. -/
def decimalDigits? (token : List Char) : Option (List Char) := do
  let digits ← digits? Char.isDigit token
  if digits.head? == some '0' && token.length != 1 then none else some digits

def digitValue (character : Char) : Nat :=
  if character.isDigit then character.toNat - '0'.toNat
  else if character.isLower then character.toNat - 'a'.toNat + 10
  else character.toNat - 'A'.toNat + 10

def isHexDigit (character : Char) : Bool :=
  character.isDigit || ('a' ≤ character && character ≤ 'f') ||
    ('A' ≤ character && character ≤ 'F')

/-- A number in another base, below `Nat.pow 2 63`. -/
def based? (base : Nat) (isDigit : Char → Bool) (token : List Char) : Option Value := do
  let digits ← digits? isDigit token
  let value := digits.foldl (fun value digit => base * value + digitValue digit) 0
  if value < Nat.pow 2 63 then some (.integer value) else none

def integer? (token : List Char) : Option Value :=
  match token with
  | '0' :: 'x' :: rest => based? 16 isHexDigit rest
  | '0' :: 'o' :: rest => based? 8 (fun digit => '0' ≤ digit && digit ≤ '7') rest
  | '0' :: 'b' :: rest => based? 2 (fun digit => digit == '0' || digit == '1') rest
  | token => do
      let (isNegative, unsigned) := splitSign token
      let value := Text.digitsValue (← decimalDigits? unsigned)
      if isNegative then
        if value ≤ Nat.pow 2 63 then some (.integer (-(value : Int))) else none
      else if value < Nat.pow 2 63 then some (.integer value)
      else none

/-- Whether `0.digits * 10 ^ point` is below all that rounds to infinity. -/
def isFinite (digits : List Char) (point : Int) : Bool :=
  let significant := digits.dropWhile (· == '0')
  let leading : Int := point - ((digits.length - significant.length : Nat) : Int)
  if significant.isEmpty || leading < -400 then true
  else if 310 < leading then false
  else
    (Magnitude.ofRatio? (Ratio.scale ⟨Text.digitsValue significant, 1⟩ 10
      (leading - (significant.length : Int)))).isSome

/-- Splits at the first character that passes. -/
def splitAt? (divides : Char → Bool) (token : List Char) : Option (List Char × List Char) :=
  match token.dropWhile (fun character => !divides character) with
  | [] => none
  | _ :: rest => some (token.takeWhile (fun character => !divides character), rest)

/-- The exponent behind its mark. -/
def exponent? (token : List Char) : Option Int := do
  let (isNegative, unsigned) := splitSign token
  let value := Text.digitsValue (← digits? Char.isDigit unsigned)
  return if isNegative then -(value : Int) else value

/-- A number with a fraction, an exponent or both.  One that is too large is
refused unless it is negative. -/
def float? (token : List Char) : Option Value := do
  let (isNegative, unsigned) := splitSign token
  let literal := Value.float (String.ofList token)
  if unsigned == ['i', 'n', 'f'] || unsigned == ['n', 'a', 'n'] then
    return literal
  let (mantissa, exponent) ←
    match splitAt? (fun character => character == 'e' || character == 'E') unsigned with
    | some (mantissa, exponent) => do
        let exponent ← exponent? exponent
        some (mantissa, some exponent)
    | none => some (unsigned, none)
  let (whole, fraction) ←
    match splitAt? (· == '.') mantissa with
    | some (whole, fraction) => do
        let digits ← digits? Char.isDigit fraction
        some (whole, some digits)
    | none => some (mantissa, none)
  if exponent.isNone && fraction.isNone then none
  let wholeDigits ← decimalDigits? whole
  let point : Int := (wholeDigits.length : Int) + exponent.getD 0
  if isNegative || isFinite (wholeDigits ++ fraction.getD []) point then
    return literal
  else
    none

/-- A number of exactly two digits within bounds. -/
def twoDigits? (low high : Nat) : List Char → Option (Nat × List Char)
  | tens :: ones :: rest =>
      let value := Text.digitsValue [tens, ones]
      if tens.isDigit && ones.isDigit && low ≤ value && value ≤ high then some (value, rest)
      else none
  | _ => none

def expect? (character : Char) : List Char → Option (List Char)
  | head :: rest => if head == character then some rest else none
  | [] => none

def daysIn (year month : Nat) : Nat :=
  if month == 2 then
    if year % 4 == 0 && (year % 100 != 0 || year % 400 == 0) then 29 else 28
  else if month == 4 || month == 6 || month == 9 || month == 11 then 30
  else 31

/-- `YYYY-MM-DD`; returns what stands behind it. -/
def readDate? (characters : List Char) : Option (List Char) := do
  let year := characters.take 4
  if year.length != 4 || !year.all Char.isDigit then none
  let rest ← expect? '-' (characters.drop 4)
  let (month, rest) ← twoDigits? 1 12 rest
  let rest ← expect? '-' rest
  let (_, rest) ← twoDigits? 1 (daysIn (Text.digitsValue year) month) rest
  return rest

/-- `HH:MM:SS` with an optional fraction. -/
def readTime? (characters : List Char) : Option (List Char) := do
  let (_, rest) ← twoDigits? 0 23 characters
  let rest ← expect? ':' rest
  let (_, rest) ← twoDigits? 0 59 rest
  let rest ← expect? ':' rest
  let (_, rest) ← twoDigits? 0 60 rest
  match rest with
  | '.' :: fraction =>
      if (fraction.takeWhile Char.isDigit).isEmpty then none
      else return fraction.dropWhile Char.isDigit
  | rest => return rest

/-- `Z` or a distance in hours and minutes; nothing is fine too. -/
def readOffset? (characters : List Char) : Option (List Char) :=
  match characters with
  | 'Z' :: rest => some rest
  | 'z' :: rest => some rest
  | sign :: rest =>
      if sign == '+' || sign == '-' then do
        let (_, rest) ← twoDigits? 0 23 rest
        let rest ← expect? ':' rest
        let (_, rest) ← twoDigits? 0 59 rest
        return rest
      else
        some (sign :: rest)
  | [] => some []

/-- A date, alone or with a time behind `T` or a blank. -/
def readMoment? (characters : List Char) : Option (List Char) := do
  let rest ← readDate? characters
  match rest with
  | ' ' :: digit :: behind =>
      if digit.isDigit then readOffset? (← readTime? (digit :: behind)) else return rest
  | mark :: behind =>
      if mark == 'T' || mark == 't' then readOffset? (← readTime? behind) else return rest
  | [] => return rest

/-- Whether a date or a time begins here. -/
def looksLikeMoment (characters : List Char) : Bool × Bool :=
  let digits := (characters.takeWhile Char.isDigit).length
  let mark := (characters.dropWhile Char.isDigit).head?
  (digits == 4 && mark == some '-', digits == 2 && mark == some ':')

def isTokenCharacter (character : Char) : Bool :=
  character.isAlphanum || character == '_' || character == '+' || character == '-' ||
    character == '.'

def word? : List Char → Option Value
  | ['t', 'r', 'u', 'e'] => some (.boolean true)
  | ['f', 'a', 'l', 's', 'e'] => some (.boolean false)
  | _ => none

/-- A value that is neither quoted nor bracketed. -/
def read (characters : List Char) : Option (Value × List Char) :=
  let moment (rest : List Char) : Value :=
    .moment (String.ofList (characters.take (characters.length - rest.length)))
  match looksLikeMoment characters with
  | (true, _) => (readMoment? characters).map fun rest => (moment rest, rest)
  | (_, true) => (readTime? characters).map fun rest => (moment rest, rest)
  | _ =>
      let token := characters.takeWhile isTokenCharacter
      let rest := characters.dropWhile isTokenCharacter
      ((word? token).or ((integer? token).or (float? token))).map fun value => (value, rest)

end Scalar

end ElmAtlas.Toml
