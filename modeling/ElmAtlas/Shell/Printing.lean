import ElmAtlas.Double
import ElmAtlas.Shell.Numeral
import ElmAtlas.Text.Blank
import ElmAtlas.Text.Decimal

/-!
# Printing

The two printing commands of a script: `echo` writes its arguments with spaces
between them, `printf` fills a format as often as its arguments need.
-/

namespace ElmAtlas.Shell

namespace Printing

def isOctal (octet : Char) : Bool :=
  '0' ≤ octet && octet ≤ '7'

def octal (digits : Octets) : Char :=
  Char.ofNat (digits.foldl (fun value digit => 8 * value + (digit.toNat - 48)) 0 % 256)

def letterEscape? : Char → Option Char
  | '\\' => some '\\'
  | 'a' => some '\x07'
  | 'b' => some '\x08'
  | 'e' => some '\x1b'
  | 'f' => some '\x0c'
  | 'n' => some '\n'
  | 'r' => some '\r'
  | 't' => some '\t'
  | 'v' => some '\x0b'
  | _ => none

/-- What a backslash stands for in a format, read from behind it; before any
other octet it stands for itself. -/
def formatEscape (octets : Octets) : Char × Octets :=
  let digits := (octets.take 3).takeWhile isOctal
  if !digits.isEmpty then (octal digits, octets.drop digits.length)
  else
    match octets with
    | [] => ('\\', [])
    | octet :: rest =>
        match letterEscape? octet with
        | some escaped => (escaped, rest)
        | none => ('\\', octets)

theorem length_formatEscape_le (octets : Octets) :
    (formatEscape octets).2.length ≤ octets.length := by
  unfold formatEscape
  dsimp only
  split
  · simp
  · cases octets with
    | nil => simp
    | cons octet rest =>
        dsimp only
        split <;> simp

/-- Undoes the escapes of a printed argument.  `\c` ends the output for good,
which the flag says. -/
def unescape : Octets → Octets × Bool
  | [] => ([], false)
  | '\\' :: 'c' :: _ => ([], true)
  | '\\' :: '0' :: rest =>
      let digits := (rest.take 3).takeWhile isOctal
      let (after, isEnded) := unescape (rest.drop digits.length)
      (octal digits :: after, isEnded)
  | '\\' :: rest =>
      let (after, isEnded) := unescape (formatEscape rest).2
      ((formatEscape rest).1 :: after, isEnded)
  | octet :: rest =>
      let (after, isEnded) := unescape rest
      (octet :: after, isEnded)
termination_by octets => octets.length
decreasing_by
  · simp only [List.length_cons, List.length_drop]
    omega
  · have := length_formatEscape_le rest
    simp only [List.length_cons]
    omega
  · simp

/-- Writes arguments with a space between them and a line end, which the first
argument can take away. -/
def echo : List Octets → Octets
  | ['-', 'n'] :: arguments => (unescape (Text.join [' '] arguments)).1
  | arguments =>
      let (shown, isEnded) := unescape (Text.join [' '] arguments)
      if isEnded then shown else shown ++ ['\n']

/-- How a conversion lays out its text. -/
structure Layout where
  flags : Octets := []
  width : Nat := 0
  precision : Option Nat := none
  deriving DecidableEq, Repr

namespace Layout

def has (layout : Layout) (flag : Char) : Bool :=
  layout.flags.contains flag

def fill (layout : Layout) (text : Octets) : Octets :=
  let missing := List.replicate (layout.width - text.length) ' '
  if layout.has '-' then text ++ missing else missing ++ text

/-- Fills up with zeros between a lead and the digits, if that is asked for. -/
def fillNumber (layout : Layout) (usesZeros : Bool) (lead digits : Octets) : Octets :=
  if usesZeros && layout.has '0' && !layout.has '-' then
    let missing := layout.width - lead.length - digits.length
    lead ++ List.replicate missing '0' ++ digits
  else layout.fill (lead ++ digits)

def fillText (layout : Layout) (text : Octets) : Octets :=
  layout.fill ((layout.precision.map text.take).getD text)

def sign (layout : Layout) (isNegative : Bool) : Octets :=
  if isNegative then ['-'] else if layout.has '+' then ['+'] else if layout.has ' ' then [' ']
  else []

/-- At least as many digits as the precision says, and none for a zero without
precision. -/
def digits (layout : Layout) (base value : Nat) : Octets :=
  if layout.precision == some 0 && value == 0 then []
  else
    let found := Nat.toDigits base value
    List.replicate (layout.precision.getD 1 - found.length) '0' ++ found

def integer (layout : Layout) (value : Int) : Octets :=
  layout.fillNumber layout.precision.isNone (layout.sign (value < 0))
    (layout.digits 10 value.natAbs)

def natural (layout : Layout) (letter : Char) (value : Nat) : Octets :=
  match letter with
  | 'o' =>
      let found := layout.digits 8 value
      let marked := if layout.has '#' && found.head? != some '0' then '0' :: found else found
      layout.fillNumber layout.precision.isNone [] marked
  | 'x' =>
      let lead := if layout.has '#' && value != 0 then ['0', 'x'] else []
      layout.fillNumber layout.precision.isNone lead (layout.digits 16 value)
  | 'X' =>
      let lead := if layout.has '#' && value != 0 then ['0', 'X'] else []
      layout.fillNumber layout.precision.isNone lead
        ((layout.digits 16 value).map Char.toUpper)
  | _ => layout.fillNumber layout.precision.isNone [] (layout.digits 10 value)

end Layout

/-- A number that need not be whole. -/
inductive Real where
  | finite (isNegative : Bool) (ratio : Ratio)
  | infinite (isNegative : Bool)
  | undefined

/-- A ratio rounded to a whole number, halves to the even neighbour. -/
def rounded (ratio : Ratio) : Nat :=
  let quotient := ratio.floor
  let twiceRest := 2 * (ratio.numerator % ratio.denominator)
  if ratio.denominator < twiceRest || (ratio.denominator == twiceRest && quotient % 2 == 1) then
    quotient + 1
  else quotient

/-- Digits with a point before the last `places` of them. -/
def pointed (keepsPoint : Bool) (places value : Nat) : Octets :=
  let found := Nat.toDigits 10 value
  let padded := List.replicate (places + 1 - found.length) '0' ++ found
  let whole := padded.take (padded.length - places)
  if places == 0 then (if keepsPoint then whole ++ ['.'] else whole)
  else whole ++ '.' :: padded.drop (padded.length - places)

def positional (keepsPoint : Bool) (places : Nat) (ratio : Ratio) : Octets :=
  pointed keepsPoint places (rounded (ratio.scale 10 places))

def leadingPower (ratio : Ratio) : Int :=
  if 1 ≤ ratio.floor then ((Nat.toDigits 10 ratio.floor).length : Int) - 1
  else Magnitude.leadingPower ratio 400 1

/-- The leading digits and the power of ten of the first one. -/
def leading (places : Nat) (ratio : Ratio) : Nat × Int :=
  if ratio.numerator == 0 then (0, 0)
  else
    let power := leadingPower ratio
    let digits := rounded (ratio.scale 10 ((places : Int) - power))
    if digits == Nat.pow 10 (places + 1) then (digits / 10, power + 1) else (digits, power)

def exponent (letter : Char) (power : Int) : Octets :=
  let found := Nat.toDigits 10 power.natAbs
  letter :: (if power < 0 then '-' else '+') ::
    (if found.length < 2 then '0' :: found else found)

def scientific (keepsPoint : Bool) (letter : Char) (places : Nat) (ratio : Ratio) : Octets :=
  let (digits, power) := leading places ratio
  pointed keepsPoint places digits ++ exponent letter power

def withoutZeros (text : Octets) : Octets :=
  if text.contains '.' then
    let kept := text.reverse.dropWhile (· == '0')
    (if kept.head? == some '.' then kept.tail else kept).reverse
  else text

/-- The shorter of the two forms, with so many digits in all. -/
def general (keepsZeros : Bool) (letter : Char) (size : Nat) (ratio : Ratio) : Octets :=
  let size := max size 1
  let (digits, power) := leading (size - 1) ratio
  let trim (text : Octets) : Octets := if keepsZeros then text else withoutZeros text
  if power < -4 || (size : Int) ≤ power then
    trim (pointed keepsZeros (size - 1) digits) ++ exponent letter power
  else trim (positional keepsZeros ((size : Int) - 1 - power).toNat ratio)

/-- The power of two of the leading bit; small numbers share the least one. -/
def leadingBit (ratio : Ratio) : Int :=
  let guess := (ratio.numerator.log2 : Int) - ratio.denominator.log2
  let power := if 1 ≤ (ratio.scale 2 (-guess)).floor then guess else guess - 1
  max (-1022) power

/-- Hexadecimal digits and a power of two; without a precision no digit is
lost. -/
def hexadecimal (keepsPoint : Bool) (precision : Option Nat) (ratio : Ratio) : Octets :=
  let power := if ratio.numerator == 0 then 0 else leadingBit ratio
  let places := precision.getD 13
  let digits := rounded (ratio.scale 2 ((4 * places : Nat) - power))
  let found := Nat.toDigits 16 digits
  let padded := List.replicate (places + 1 - found.length) '0' ++ found
  let behind := padded.drop (padded.length - places)
  let kept :=
    if precision.isSome then behind else (behind.reverse.dropWhile (· == '0')).reverse
  let point := if kept.isEmpty && !keepsPoint then [] else '.' :: kept
  padded.take (padded.length - places) ++ point ++
    ['p', if power < 0 then '-' else '+'] ++ Nat.toDigits 10 power.natAbs

namespace Real

/-- The power behind a mark, and what follows; zero where no digits stand. -/
def power (mark : Char) (octets : Octets) : Int × Octets :=
  match octets with
  | found :: rest =>
      if found.toLower != mark then (0, octets)
      else
        let isNegative := rest.head? == some '-'
        let unsigned := if isNegative || rest.head? == some '+' then rest.tail else rest
        let digits := unsigned.takeWhile Char.isDigit
        let value : Int := Text.digitsValue digits
        if digits.isEmpty then (0, octets)
        else
          (max (-2000) (min 2000 (if isNegative then -value else value)),
            unsigned.dropWhile Char.isDigit)
  | [] => (0, [])

def pointedDigits (isDigit : Char → Bool) (octets : Octets) : Octets × Octets × Octets :=
  let whole := octets.takeWhile isDigit
  match octets.dropWhile isDigit with
  | '.' :: more => (whole, more.takeWhile isDigit, more.dropWhile isDigit)
  | more => (whole, [], more)

/-- A number with digits of a base, scaled by powers of another one; each place
behind the point counts for so many powers. -/
def pointedRatio? (base scale placePowers : Nat) (mark : Char) (octets : Octets) :
    Option (Ratio × Octets) :=
  let (whole, places, rest) :=
    pointedDigits (fun octet => (Numeral.digit? base octet).isSome) octets
  if whole.isEmpty && places.isEmpty then none
  else
    let (given, behind) := power mark rest
    let value := (Numeral.digits base 0 (whole ++ places)).1
    some (Ratio.scale ⟨value, 1⟩ scale (given - (placePowers * places.length : Nat)), behind)

/-- The number at the start of an argument and what follows it; none where no
number stands. -/
def read? (octets : Octets) : Option (Real × Octets) := do
  let start := octets.dropWhile Numeral.isBlank
  let isNegative := start.head? == some '-'
  let unsigned := if isNegative || start.head? == some '+' then start.tail else start
  let begins (word : String) : Bool :=
    word.toList.isPrefixOf (unsigned.map Char.toLower)
  if begins "infinity" then return (.infinite isNegative, unsigned.drop 8)
  if begins "inf" then return (.infinite isNegative, unsigned.drop 3)
  if begins "nan" then return (.undefined, unsigned.drop 3)
  let hexadecimal := if begins "0x" then pointedRatio? 16 2 4 'p' (unsigned.drop 2) else none
  let (exact, behind) ← hexadecimal.orElse fun _ => pointedRatio? 10 10 1 'e' unsigned
  match Magnitude.ofRatio? exact with
  | some magnitude => return (.finite isNegative magnitude.toRatio, behind)
  | none => return (.infinite isNegative, behind)

def text (layout : Layout) (letter : Char) (real : Real) : Octets :=
  let isUpper := letter.isUpper
  let cased (text : String) : Octets :=
    if isUpper then text.toList.map Char.toUpper else text.toList
  match real with
  | undefined => layout.fill (layout.sign false ++ cased "nan")
  | infinite isNegative => layout.fill (layout.sign isNegative ++ cased "inf")
  | finite isNegative ratio =>
      let places := layout.precision.getD 6
      let exponentLetter := if isUpper then 'E' else 'e'
      let body :=
        match letter.toLower with
        | 'e' => scientific (layout.has '#') exponentLetter places ratio
        | 'g' => general (layout.has '#') exponentLetter places ratio
        | 'a' => hexadecimal (layout.has '#') layout.precision ratio
        | _ => positional (layout.has '#') places ratio
      let lead := layout.sign isNegative ++ (if letter.toLower == 'a' then ['0', 'x'] else [])
      let shown := layout.fillNumber true lead body
      if letter == 'A' then shown.map Char.toUpper else shown

end Real

/-- What a format has written, what it has to say about its arguments, and the
arguments that are left. -/
structure Pass where
  output : Octets := []
  complaints : List Octets := []
  arguments : List Octets := []
  isEnded : Bool := false
  fault : Option Octets := none

namespace Pass

def write (text : Octets) (pass : Pass) : Pass :=
  { pass with output := pass.output ++ text }

def complain (argument : Octets) (problem : String) (pass : Pass) : Pass :=
  { pass with complaints := pass.complaints ++ [argument ++ ": ".toList ++ problem.toList] }

/-- Takes the next argument; one that is missing is none. -/
def argument (pass : Pass) : Option Octets × Pass :=
  (pass.arguments.head?, { pass with arguments := pass.arguments.tail })

/-- Looks at what is left of an argument that was read as a number. -/
def check (argument rest : Octets) (isRead isInRange : Bool) (pass : Pass) : Pass :=
  if !isRead && !argument.isEmpty then pass.complain argument "expected numeric value"
  else if !rest.isEmpty then pass.complain argument "not completely converted"
  else if !isInRange then pass.complain argument "Numerical result out of range"
  else pass

def integer (isSigned : Bool) (pass : Pass) : Int × Pass :=
  match pass.argument with
  | (none, rest) => (0, rest)
  | (some argument, rest) =>
      match argument with
      | '"' :: octet | '\'' :: octet => ((octet.headD '\x00').toNat, rest)
      | _ =>
          match Numeral.read? true argument with
          | none => (0, rest.check argument [] false true)
          | some (value, behind) =>
              let isInRange :=
                if isSigned then Numeral.isInRange value else value.natAbs < UInt64.size
              (value, rest.check argument behind true isInRange)

/-- The next argument as a number that need not be whole. -/
def real (pass : Pass) : Real × Pass :=
  let zero : Real := .finite false ⟨0, 1⟩
  match pass.argument with
  | (none, rest) => (zero, rest)
  | (some argument, rest) =>
      match argument with
      | '"' :: octet | '\'' :: octet => (.finite false ⟨(octet.headD '\x00').toNat, 1⟩, rest)
      | _ =>
          match Real.read? argument with
          | none => (zero, rest.check argument [] false true)
          | some (value, behind) => (value, rest.check argument behind true true)

/-- A number written in the format or taken from the arguments. -/
def size (format : Octets) (pass : Pass) : Option Int × Octets × Pass :=
  match format with
  | '*' :: rest =>
      let (value, next) := pass.integer true
      (some value, rest, next)
  | _ =>
      let digits := format.takeWhile Char.isDigit
      (if digits.isEmpty then none else some (Text.digitsValue digits),
        format.dropWhile Char.isDigit, pass)

end Pass

/-- The layout of a conversion, read from behind its percent sign. -/
def layout (format : Octets) (pass : Pass) : Layout × Octets × Pass :=
  let isFlag (octet : Char) : Bool :=
    octet == '-' || octet == '0' || octet == '+' || octet == ' ' || octet == '#'
  let flags := format.takeWhile isFlag
  let (width, sized, afterWidth) := pass.size (format.dropWhile isFlag)
  let written := width.getD 0
  let flags := if written < 0 then '-' :: flags else flags
  match sized with
  | '.' :: rest =>
      let (precision, behind, afterPrecision) := afterWidth.size rest
      let kept :=
        match precision with
        | none => some 0
        | some value => if value < 0 then none else some value.toNat
      (⟨flags, written.natAbs, kept⟩, behind, afterPrecision)
  | _ => (⟨flags, written.natAbs, none⟩, sized, afterWidth)

def convert (layout : Layout) (letter : Char) (directive : Octets) (pass : Pass) : Pass :=
  match letter with
  | 's' =>
      let (argument, next) := pass.argument
      next.write (layout.fillText (argument.getD []))
  | 'c' =>
      let (argument, next) := pass.argument
      next.write (layout.fill [((argument.getD []).head?).getD '\x00'])
  | 'b' =>
      let (argument, next) := pass.argument
      let (text, isEnded) := unescape (argument.getD [])
      { (next.write (layout.fillText text)) with isEnded := isEnded }
  | 'd' | 'i' =>
      let (value, next) := pass.integer true
      next.write (layout.integer (Numeral.clamp value))
  | 'o' | 'u' | 'x' | 'X' =>
      let (value, next) := pass.integer false
      let natural :=
        if UInt64.size ≤ value.natAbs then UInt64.size - 1
        else (value % (UInt64.size : Int)).toNat
      next.write (layout.natural letter natural)
  | 'a' | 'A' | 'e' | 'E' | 'f' | 'F' | 'g' | 'G' =>
      let (value, next) := pass.real
      next.write (Real.text layout letter value)
  | _ => { pass with fault := some (directive ++ ": invalid directive".toList), isEnded := true }

/-- Fills a format once.  `fuel` bounds the octets of the format. -/
def formatOnce : (fuel : Nat) → Octets → Pass → Pass
  | 0, _, pass => pass
  | _ + 1, [], pass => pass
  | fuel + 1, '\\' :: rest, pass =>
      let (octet, after) := formatEscape rest
      formatOnce fuel after (pass.write [octet])
  | fuel + 1, '%' :: '%' :: rest, pass => formatOnce fuel rest (pass.write ['%'])
  | fuel + 1, '%' :: rest, pass =>
      let (found, behind, next) := layout rest pass
      match behind with
      | [] => { next with fault := some "missing format character".toList, isEnded := true }
      | letter :: after =>
          let directive := '%' :: rest.take (rest.length - after.length)
          let filled := convert found letter directive next
          if filled.isEnded then filled else formatOnce fuel after filled
  | fuel + 1, octet :: rest, pass => formatOnce fuel rest (pass.write [octet])

/-- Fills a format again while it uses up arguments.  `fuel` bounds how often. -/
def formatAll (format : Octets) : (fuel : Nat) → Pass → Pass
  | 0, pass => pass
  | fuel + 1, pass =>
      let next := formatOnce (format.length + 1) format pass
      if next.isEnded || next.arguments.isEmpty ||
          next.arguments.length == pass.arguments.length then
        next
      else formatAll format fuel next

def printf (format : Octets) (arguments : List Octets) : Pass :=
  formatAll format (arguments.length + 1) { arguments := arguments }

end Printing

end ElmAtlas.Shell
