import ElmAtlas.NameMap

/-!
# Printed documents

The documents that the program writes hold numbers, texts, lists and objects.
An object lists its members by name.  Every item of a list and every member of an
object stands on a line of its own, two spaces further in than what holds it.
-/

namespace ElmAtlas.Json

inductive Value where
  | natural (number : Nat)
  | text (text : String)
  | array (items : List Value)
  | object (members : List (String × Value))

namespace Value

/-- An object of the given members, sorted by name. -/
def ofMembers (members : List (String × Value)) : Value :=
  .object (NameMap.ofList members).entries

def texts (items : List String) : Value :=
  .array (items.map text)

/-- A digit of a hexadecimal numeral, in small letters. -/
def hexDigit (digit : Nat) : Char :=
  if digit < 10 then Char.ofNat ('0'.toNat + digit) else Char.ofNat ('a'.toNat + digit - 10)

/-- A character as it stands between quotes. -/
def escape (character : Char) : List Char :=
  match character with
  | '"' => ['\\', '"']
  | '\\' => ['\\', '\\']
  | '\x08' => ['\\', 'b']
  | '\x0c' => ['\\', 'f']
  | '\n' => ['\\', 'n']
  | '\r' => ['\\', 'r']
  | '\t' => ['\\', 't']
  | character =>
      let code := character.toNat
      if code < 0x20 then ['\\', 'u', '0', '0', hexDigit (code / 16), hexDigit (code % 16)]
      else [character]

def quote (text : String) : String :=
  String.ofList (['"'] ++ text.toList.flatMap escape ++ ['"'])

/-- The start of a line at some depth. -/
def indent (depth : Nat) : String :=
  "\n" ++ String.ofList (List.replicate (2 * depth) ' ')

/-- Lines between brackets; without lines the brackets stand together. -/
def enclose (opening closing : String) (depth : Nat) (lines : List String) : String :=
  if lines.isEmpty then opening ++ closing
  else
    opening ++ String.intercalate "," (lines.map (indent (depth + 1) ++ ·)) ++
      indent depth ++ closing

mutual

/-- The text of a value that stands at some depth. -/
def renderAt : (depth : Nat) → Value → String
  | _, .natural number => toString number
  | _, .text content => quote content
  | depth, .array items => enclose "[" "]" depth (renderItems (depth + 1) items)
  | depth, .object members =>
      enclose "\x7b" "\x7d" depth (renderMembers (depth + 1) members)

def renderItems : (depth : Nat) → List Value → List String
  | _, [] => []
  | depth, item :: items => item.renderAt depth :: renderItems depth items

def renderMembers : (depth : Nat) → List (String × Value) → List String
  | _, [] => []
  | depth, (name, value) :: members =>
      (quote name ++ ": " ++ value.renderAt depth) :: renderMembers depth members

end

def render (value : Value) : String :=
  value.renderAt 0

end Value

end ElmAtlas.Json
