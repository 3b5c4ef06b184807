import ElmAtlas.Toml.Outline
import ElmAtlas.Toml.Quotation
import ElmAtlas.Toml.Scalar

/-!
# Reading configuration documents
-/

namespace ElmAtlas.Toml

namespace Reader

def isBlank (character : Char) : Bool :=
  character == ' ' || character == '\t'

def skipBlanks (characters : List Char) : List Char :=
  characters.dropWhile isBlank

def isBareKeyCharacter (character : Char) : Bool :=
  character.isAlphanum || character == '_' || character == '-'

/-- Arrays and inline tables nest less deep than this, and dotted keys have
fewer parts. -/
def nestingLimit : Nat := 80

/-- Drops the rest of a line that holds blanks and a comment at most. -/
def endLine? (characters : List Char) : Option (List Char) :=
  let behind :=
    match skipBlanks characters with
    | '#' :: comment => comment.dropWhile isPlain
    | rest => rest
  match behind with
  | [] => some []
  | '\n' :: rest => some rest
  | '\r' :: '\n' :: rest => some rest
  | _ => none

/-- One part of a key, bare or quoted. -/
def readSimpleKey? (characters : List Char) : Option (String × List Char) :=
  match characters with
  | '"' :: rest => (Quotation.readBasic rest).map fun (key, rest) => (String.ofList key, rest)
  | '\'' :: rest =>
      (Quotation.readLiteral rest).map fun (key, rest) => (String.ofList key, rest)
  | characters =>
      let key := characters.takeWhile isBareKeyCharacter
      if key.isEmpty then none
      else some (String.ofList key, characters.dropWhile isBareKeyCharacter)

/-- A key with blanks around it; `fuel` bounds its parts. -/
def readKey? : (fuel : Nat) → List Char → Option (List String × List Char)
  | 0, _ => none
  | fuel + 1, characters => do
      let (key, rest) ← readSimpleKey? (skipBlanks characters)
      match skipBlanks rest with
      | '.' :: more => do
          let (keys, rest) ← readKey? fuel more
          return (key :: keys, rest)
      | rest => return ([key], rest)

/-- Blanks, line ends and comments between the items of an array; `inComment`
holds from `#` to the end of its line. -/
def skipSpace? (inComment : Bool) : List Char → Option (List Char)
  | [] => if inComment then none else some []
  | '\r' :: '\n' :: rest => skipSpace? false rest
  | character :: rest =>
      if character == '\n' then skipSpace? false rest
      else if inComment then if isPlain character then skipSpace? true rest else none
      else if isBlank character then skipSpace? false rest
      else if character == '#' then skipSpace? true rest
      else some (character :: rest)

mutual

/-- A value.  `fuel` bounds the steps and `depth` the nesting. -/
def readValue? : (fuel depth : Nat) → List Char → Option (Value × List Char)
  | 0, _, _ => none
  | fuel + 1, depth, characters =>
      match characters with
      | '"' :: _ | '\'' :: _ =>
          (Quotation.read characters).map fun (content, rest) =>
            (.text (String.ofList content), rest)
      | '[' :: rest =>
          match depth with
          | 0 => none
          | depth + 1 => do
              let (items, rest) ← readItems? fuel depth rest
              return (.array items, rest)
      | '{' :: rest =>
          match depth with
          | 0 => none
          | depth + 1 =>
              match skipBlanks rest with
              | '}' :: rest => some (.table [], rest)
              | rest => do
                  let (entries, rest) ← readPairs? fuel depth rest []
                  return (.table (Item.entriesToValues entries), rest)
      | characters => Scalar.read characters

/-- The items of an array up to its bracket; a comma may follow the last. -/
def readItems? : (fuel depth : Nat) → List Char → Option (List Value × List Char)
  | 0, _, _ => none
  | fuel + 1, depth, characters => do
      match ← skipSpace? false characters with
      | ']' :: rest => return ([], rest)
      | start =>
          let (item, rest) ← readValue? fuel depth start
          match ← skipSpace? false rest with
          | ',' :: rest =>
              let (items, rest) ← readItems? fuel depth rest
              return (item :: items, rest)
          | ']' :: rest => return ([item], rest)
          | _ => none

/-- The pairs of an inline table up to its brace, all on one line. -/
def readPairs? : (fuel depth : Nat) → List Char → Outline.Entries →
    Option (Outline.Entries × List Char)
  | 0, _, _, _ => none
  | fuel + 1, depth, characters, entries => do
      let (keys, rest) ← readKey? (nestingLimit - 1) characters
      match rest with
      | '=' :: rest =>
          let (value, rest) ← readValue? fuel depth (skipBlanks rest)
          let entries ← Outline.insert keys value entries
          match skipBlanks rest with
          | ',' :: rest => readPairs? fuel depth rest entries
          | '}' :: rest => return (entries, rest)
          | _ => none
      | _ => none

end

/-- The key between the brackets of a header and the line behind it. -/
def readHeader? (closing : List Char) (characters : List Char) :
    Option (List String × List Char) := do
  let (keys, rest) ← readKey? (nestingLimit - 1) characters
  if closing.isPrefixOf rest then
    return (keys, ← endLine? (rest.drop closing.length))
  else
    none

/-- Reads line after line; `header` is the key of the table opened last. -/
def readLines? : (fuel : Nat) → (header : List String) → Outline.Entries → List Char →
    Option Outline.Entries
  | 0, _, _, _ => none
  | fuel + 1, header, entries, characters =>
      match skipBlanks characters with
      | [] => some entries
      | '#' :: _ | '\n' :: _ | '\r' :: _ => do
          readLines? fuel header entries (← endLine? characters)
      | '[' :: '[' :: rest => do
          let (keys, rest) ← readHeader? [']', ']'] rest
          readLines? fuel keys (← Outline.openElement keys entries) rest
      | '[' :: rest => do
          let (keys, rest) ← readHeader? [']'] rest
          readLines? fuel keys (← Outline.openTable keys entries) rest
      | start => do
          let (keys, rest) ← readKey? (nestingLimit - 1) start
          match rest with
          | '=' :: rest =>
              let (value, rest) ←
                readValue? (rest.length + 1) (nestingLimit - 1) (skipBlanks rest)
              let entries ← Outline.insertBelow header keys value entries
              readLines? fuel header entries (← endLine? rest)
          | _ => none

end Reader

/-- Reads a document; none when it is not one.  A byte order mark at its
beginning is skipped. -/
def read? (text : String) : Option Value :=
  let characters :=
    match text.toList with
    | '\uFEFF' :: rest => rest
    | characters => characters
  (Reader.readLines? (characters.length + 1) [] [] characters).map fun entries =>
    .table (Item.entriesToValues entries)

end ElmAtlas.Toml
