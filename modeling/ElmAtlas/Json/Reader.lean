import ElmAtlas.Json.Document

/-!
# Reading documents

The reader looks at bytes, each taken as the character of the same code; the
bytes of a text are decoded once its closing quote is found.  Reading never
fails: it returns the tree up to the first grammar error and, when there was
none, the bytes behind the value.
-/

namespace ElmAtlas.Json

namespace Reader

def isSpace (character : Char) : Bool :=
  character == ' ' || character == '\n' || character == '\t' || character == '\r'

def skipSpace (characters : List Char) : List Char :=
  characters.dropWhile isSpace

def hexDigit? (character : Char) : Option Nat :=
  if '0' ≤ character && character ≤ '9' then some (character.toNat - '0'.toNat)
  else if 'a' ≤ character && character ≤ 'f' then some (character.toNat - 'a'.toNat + 10)
  else if 'A' ≤ character && character ≤ 'F' then some (character.toNat - 'A'.toNat + 10)
  else none

def hexUnit? (first second third fourth : Char) : Option Nat := do
  return 4096 * (← hexDigit? first) + 256 * (← hexDigit? second) +
    16 * (← hexDigit? third) + (← hexDigit? fourth)

def isHighSurrogate (unit : Nat) : Bool :=
  0xD800 ≤ unit && unit ≤ 0xDBFF

def isLowSurrogate (unit : Nat) : Bool :=
  0xDC00 ≤ unit && unit ≤ 0xDFFF

def shortEscape? : Char → Option Char
  | '"' => some '"'
  | '\\' => some '\\'
  | '/' => some '/'
  | 'b' => some '\x08'
  | 'f' => some '\x0c'
  | 'n' => some '\n'
  | 'r' => some '\r'
  | 't' => some '\t'
  | _ => none

/-- Puts the bytes of a character in front of the bytes gathered so far, which
are kept last first. -/
def pushCharacter (character : Char) (bytes : List UInt8) : List UInt8 :=
  character.toString.toUTF8.toList.reverse ++ bytes

/-- Reads up to the closing quote.  The text is none when it cannot be read
although its grammar is right.  `pending` is a high surrogate whose partner has
to come next. -/
def readText (readable : Bool) (pending : Option Nat) (bytes : List UInt8) :
    List Char → Option (Option String × List Char)
  | [] => none
  | '"' :: rest =>
      if readable && pending.isNone then
        some (String.fromUTF8? ⟨bytes.reverse.toArray⟩, rest)
      else
        some (none, rest)
  | '\\' :: 'u' :: first :: second :: third :: fourth :: rest =>
      match hexUnit? first second third fourth, pending with
      | none, _ => none
      | some unit, none =>
          if isHighSurrogate unit then
            readText readable (some unit) bytes rest
          else if isLowSurrogate unit then
            readText false none bytes rest
          else
            readText readable none (pushCharacter (Char.ofNat unit) bytes) rest
      | some unit, some high =>
          if isLowSurrogate unit then
            let code := 0x10000 + (high - 0xD800) * 0x400 + (unit - 0xDC00)
            readText readable none (pushCharacter (Char.ofNat code) bytes) rest
          else
            readText false none bytes rest
  | '\\' :: escape :: rest =>
      match shortEscape? escape with
      | some character =>
          readText (readable && pending.isNone) none (pushCharacter character bytes) rest
      | none => none
  | character :: rest =>
      if character.toNat < 0x20 then
        none
      else
        readText (readable && pending.isNone) none (character.toUInt8 :: bytes) rest

def readDigits? (characters : List Char) : Option (List Char × List Char) :=
  let digits := characters.takeWhile Char.isDigit
  if digits.isEmpty then none else some (digits, characters.dropWhile Char.isDigit)

def readExponent? : List Char → Option (Option (Bool × List Char) × List Char)
  | mark :: rest =>
      if mark == 'e' || mark == 'E' then do
        let (down, digits) :=
          match rest with
          | '+' :: digits => (false, digits)
          | '-' :: digits => (true, digits)
          | digits => (false, digits)
        let (digits, behind) ← readDigits? digits
        return (some (down, digits), behind)
      else
        some (none, mark :: rest)
  | [] => some (none, [])

/-- The sign of a numeral and what stands behind it. -/
def splitSign : List Char → Bool × List Char
  | '-' :: rest => (true, rest)
  | rest => (false, rest)

/-- The digits behind a point, which may be missing. -/
def readFraction? : List Char → Option (List Char × List Char)
  | '.' :: rest => readDigits? rest
  | rest => some ([], rest)

/-- Reads a numeral; more than one digit may not begin with zero. -/
def readNumeral? (characters : List Char) : Option (Numeral × List Char) := do
  let (isNegative, unsigned) := splitSign characters
  let (integer, rest) ← readDigits? unsigned
  if integer.head? == some '0' && integer.length != 1 then none
  let (fraction, rest) ← readFraction? rest
  let (exponent, rest) ← readExponent? rest
  return (⟨isNegative, integer, fraction, exponent⟩, rest)

def dropWord? : (word : List Char) → List Char → Option (List Char)
  | [], characters => some characters
  | letter :: word, character :: characters =>
      if letter == character then dropWord? word characters else none
  | _ :: _, [] => none

/-- The document so far, and the bytes behind it unless the grammar broke. -/
abbrev Progress := Document × Option (List Char)

def readWord (word : List Char) (document : Document) (characters : List Char) : Progress :=
  match dropWord? word characters with
  | some rest => (document, some rest)
  | none => (.fault, none)

mutual

/-- Reads a value.  `fuel` bounds the number of steps; the length of the input
is enough, because every step consumes a character. -/
def readValue : (fuel : Nat) → List Char → Progress
  | 0, _ => (.fault, none)
  | fuel + 1, characters =>
      match skipSpace characters with
      | '"' :: rest =>
          match readText true none [] rest with
          | some (text, behind) => (.text text, some behind)
          | none => (.fault, none)
      | '[' :: rest =>
          let (items, behind) := readItems fuel true rest
          (.array items, behind)
      | '{' :: rest =>
          let (members, behind) := readMembers fuel true rest
          (.object members, behind)
      | 'n' :: rest => readWord ['u', 'l', 'l'] .null rest
      | 't' :: rest => readWord ['r', 'u', 'e'] (.boolean true) rest
      | 'f' :: rest => readWord ['a', 'l', 's', 'e'] (.boolean false) rest
      | start =>
          match readNumeral? start with
          | some (numeral, behind) => (.number numeral.number?, some behind)
          | none => (.fault, none)

/-- Reads the items of an array up to its bracket; an item that is not the
first stands behind a comma. -/
def readItems : (fuel : Nat) → (isFirst : Bool) → List Char →
    List Document × Option (List Char)
  | 0, _, _ => ([.fault], none)
  | fuel + 1, isFirst, characters =>
      match skipSpace characters, isFirst with
      | ']' :: rest, _ => ([], some rest)
      | ',' :: rest, false => readItem fuel rest
      | rest, true => readItem fuel rest
      | _, false => ([.fault], none)

def readItem : (fuel : Nat) → List Char → List Document × Option (List Char)
  | 0, _ => ([.fault], none)
  | fuel + 1, characters =>
      match readValue fuel characters with
      | (item, some behind) =>
          let (items, rest) := readItems fuel false behind
          (item :: items, rest)
      | (item, none) => ([item], none)

/-- Reads the members of an object up to its brace. -/
def readMembers : (fuel : Nat) → (isFirst : Bool) → List Char →
    List (Option String × Document) × Option (List Char)
  | 0, _, _ => ([(none, .fault)], none)
  | fuel + 1, isFirst, characters =>
      match skipSpace characters, isFirst with
      | '}' :: rest, _ => ([], some rest)
      | ',' :: rest, false => readMember fuel (skipSpace rest)
      | rest, true => readMember fuel rest
      | _, false => ([(none, .fault)], none)

def readMember : (fuel : Nat) → List Char →
    List (Option String × Document) × Option (List Char)
  | fuel + 1, '"' :: rest =>
      match readText true none [] rest with
      | none => ([(none, .fault)], none)
      | some (key, behind) =>
          match skipSpace behind with
          | ':' :: rest =>
              match readValue fuel rest with
              | (value, some behind) =>
                  let (members, rest) := readMembers fuel false behind
                  ((key, value) :: members, rest)
              | (value, none) => ([(key, value)], none)
          | _ => ([(key, .fault)], none)
  | _, _ => ([(none, .fault)], none)

end

end Reader

/-- What a file holds: a document and whether anything but space follows it. -/
structure Reading where
  document : Document
  hasSurplus : Bool

def read (bytes : ByteArray) : Reading :=
  let characters := bytes.toList.map fun byte => Char.ofNat byte.toNat
  match Reader.readValue (3 * characters.length + 3) characters with
  | (document, some rest) => ⟨document, !(Reader.skipSpace rest).isEmpty⟩
  | (document, none) => ⟨document, false⟩

end ElmAtlas.Json
