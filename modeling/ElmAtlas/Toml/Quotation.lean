/-!
# Quoted strings

A string is written in one of four ways.  Basic strings know escapes, literal
strings hold their characters as they are; both have a form that may span lines,
opened and closed by three quotes.  The writer takes the first form that shows
the string plainly and falls back on escapes.
-/

namespace ElmAtlas.Toml

/-- Controls other than tab and line feed. -/
def isControl (character : Char) : Bool :=
  (character.toNat < 0x20 && character != '\t' && character != '\n') ||
    character.toNat == 0x7F

/-- The characters that may stand for themselves inside a line. -/
def isPlain (character : Char) : Bool :=
  character == '\t' || (0x20 ≤ character.toNat && character.toNat != 0x7F)

namespace Quotation

def hexDigit? (character : Char) : Option Nat :=
  if '0' ≤ character && character ≤ '9' then some (character.toNat - '0'.toNat)
  else if 'a' ≤ character && character ≤ 'f' then some (character.toNat - 'a'.toNat + 10)
  else if 'A' ≤ character && character ≤ 'F' then some (character.toNat - 'A'.toNat + 10)
  else none

def hexValue? (digits : List Char) : Option Nat :=
  digits.foldl (fun value digit => do return 16 * (← value) + (← hexDigit? digit)) (some 0)

/-- The character of a code that is no surrogate and not beyond Unicode. -/
def scalar? (digits : List Char) : Option Char := do
  let code ← hexValue? digits
  if code < 0xD800 || (0xDFFF < code && code < 0x110000) then some (Char.ofNat code) else none

def shortEscape? : Char → Option Char
  | 'b' => some '\x08'
  | 't' => some '\t'
  | 'n' => some '\n'
  | 'f' => some '\x0c'
  | 'r' => some '\r'
  | '"' => some '"'
  | '\\' => some '\\'
  | _ => none

abbrev Reading := Option (List Char × List Char)

/-- Puts a character in front of what is read next. -/
def prepend (character : Char) (reading : Reading) : Reading :=
  reading.map fun (content, rest) => (character :: content, rest)

/-- The rest of a basic string, behind its opening quote. -/
def readBasic : List Char → Reading
  | [] => none
  | '"' :: rest => some ([], rest)
  | '\\' :: 'u' :: a :: b :: c :: d :: rest =>
      match scalar? [a, b, c, d] with
      | some character => prepend character (readBasic rest)
      | none => none
  | '\\' :: 'U' :: a :: b :: c :: d :: e :: f :: g :: h :: rest =>
      match scalar? [a, b, c, d, e, f, g, h] with
      | some character => prepend character (readBasic rest)
      | none => none
  | '\\' :: escape :: rest =>
      match shortEscape? escape with
      | some character => prepend character (readBasic rest)
      | none => none
  | character :: rest =>
      if isPlain character && character != '\\' then prepend character (readBasic rest)
      else none

def readLiteral : List Char → Reading
  | [] => none
  | '\'' :: rest => some ([], rest)
  | character :: rest =>
      if isPlain character then prepend character (readLiteral rest) else none

/-- Up to two quotes that belong to the string may stand before the three that
close it. -/
def closeQuotes (quote : Char) (rest : List Char) : Reading :=
  match rest with
  | first :: second :: behind =>
      if first == quote && second == quote then some ([quote, quote], behind)
      else if first == quote then some ([quote], second :: behind)
      else some ([], first :: second :: behind)
  | [first] => if first == quote then some ([quote], []) else some ([], [first])
  | [] => some ([], [])

/-- Whether a backslash ends its line: only blanks stand before the line feed. -/
def endsLine (characters : List Char) : Bool :=
  match characters.dropWhile (fun character => character == ' ' || character == '\t') with
  | '\n' :: _ => true
  | '\r' :: '\n' :: _ => true
  | _ => false

/-- The rest of a basic string over several lines.  While `skipping`, blanks
and line ends behind a backslash are dropped. -/
def readLongBasic (skipping : Bool) : List Char → Reading
  | [] => none
  | '"' :: '"' :: '"' :: rest => closeQuotes '"' rest
  | '\\' :: 'u' :: a :: b :: c :: d :: rest =>
      match scalar? [a, b, c, d] with
      | some character => prepend character (readLongBasic false rest)
      | none => none
  | '\\' :: 'U' :: a :: b :: c :: d :: e :: f :: g :: h :: rest =>
      match scalar? [a, b, c, d, e, f, g, h] with
      | some character => prepend character (readLongBasic false rest)
      | none => none
  | '\\' :: escape :: rest =>
      match shortEscape? escape with
      | some character => prepend character (readLongBasic false rest)
      | none =>
          if endsLine (escape :: rest) then readLongBasic true (escape :: rest) else none
  | '\r' :: '\n' :: rest =>
      if skipping then readLongBasic true rest else prepend '\n' (readLongBasic false rest)
  | character :: rest =>
      if skipping && (character == ' ' || character == '\t' || character == '\n') then
        readLongBasic true rest
      else if (isPlain character || character == '\n') && character != '\\' then
        prepend character (readLongBasic false rest)
      else
        none

/-- The rest of a literal string over several lines. -/
def readLongLiteral : List Char → Reading
  | [] => none
  | '\'' :: '\'' :: '\'' :: rest => closeQuotes '\'' rest
  | '\r' :: '\n' :: rest => prepend '\n' (readLongLiteral rest)
  | character :: rest =>
      if isPlain character || character == '\n' then prepend character (readLongLiteral rest)
      else none

/-- A line end right behind three opening quotes does not count. -/
def skipFirstLineEnd : List Char → List Char
  | '\n' :: rest => rest
  | '\r' :: '\n' :: rest => rest
  | rest => rest

/-- A string that stays on its line. -/
def readShort : List Char → Reading
  | '"' :: rest => readBasic rest
  | '\'' :: rest => readLiteral rest
  | _ => none

def read : List Char → Reading
  | '"' :: '"' :: '"' :: rest => readLongBasic false (skipFirstLineEnd rest)
  | '\'' :: '\'' :: '\'' :: rest => readLongLiteral (skipFirstLineEnd rest)
  | characters => readShort characters

inductive Form where
  | basic
  | literal
  | longBasic
  | longLiteral
  deriving DecidableEq, Repr

/-- The longest run of a character; `current` is the run that just ended. -/
def longestRun (target : Char) (current : Nat) : List Char → Nat
  | [] => current
  | character :: rest =>
      if character == target then longestRun target (current + 1) rest
      else max current (longestRun target 0 rest)

/-- The first form that fits. -/
def formOf (content : List Char) : Form :=
  let hasControl := content.any isControl
  let hasBackslash := content.contains '\\'
  let hasLineEnd := content.contains '\n'
  let doubles := longestRun '"' 0 content
  let singles := longestRun '\'' 0 content
  if !hasControl && !hasBackslash && doubles == 0 && !hasLineEnd then .basic
  else if !hasControl && singles == 0 && !hasLineEnd then .literal
  else if !hasControl && !hasBackslash && doubles ≤ 2 then .longBasic
  else if !hasControl && singles ≤ 2 then .longLiteral
  else if hasLineEnd then .longBasic
  else .basic

def upperHexDigit (value : Nat) : Char :=
  if value < 10 then Char.ofNat ('0'.toNat + value) else Char.ofNat ('A'.toNat + value - 10)

/-- How a basic string writes a character that is neither a quote nor, over
several lines, a line feed. -/
def escapeCharacter (character : Char) : List Char :=
  match character with
  | '\x08' => ['\\', 'b']
  | '\t' => ['\\', 't']
  | '\n' => ['\\', 'n']
  | '\x0c' => ['\\', 'f']
  | '\r' => ['\\', 'r']
  | '\\' => ['\\', '\\']
  | character =>
      if isControl character then
        ['\\', 'u', '0', '0', upperHexDigit (character.toNat / 16),
          upperHexDigit (character.toNat % 16)]
      else
        [character]

/-- The content of a basic string on one line. -/
def writeBasic (content : List Char) : List Char :=
  content.flatMap fun character =>
    if character == '"' then ['\\', '"'] else escapeCharacter character

/-- The content of a basic string over several lines; every third quote of a run
is escaped. -/
def writeLongBasic (run : Nat) : List Char → List Char
  | [] => []
  | '"' :: rest =>
      if run == 2 then ['\\', '"'] ++ writeLongBasic 0 rest
      else '"' :: writeLongBasic (run + 1) rest
  | '\n' :: rest => '\n' :: writeLongBasic 0 rest
  | character :: rest => escapeCharacter character ++ writeLongBasic 0 rest

/-- Three opening quotes, and a line end when the content has one. -/
def openLong (quote : Char) (content : List Char) : List Char :=
  [quote, quote, quote] ++ if content.contains '\n' then ['\n'] else []

def write (content : List Char) : List Char :=
  match formOf content with
  | .basic => ['"'] ++ writeBasic content ++ ['"']
  | .literal => ['\''] ++ content ++ ['\'']
  | .longBasic => openLong '"' content ++ writeLongBasic 0 content ++ ['"', '"', '"']
  | .longLiteral => openLong '\'' content ++ content ++ ['\'', '\'', '\'']

end Quotation

/-- A string as the writer quotes it. -/
def quoteText (text : String) : String :=
  String.ofList (Quotation.write text.toList)

end ElmAtlas.Toml
