/-!
# Configuration values

The values of a TOML document.  Numbers with a fraction and points in time are
kept as they were written; nothing in the library computes with them.
-/

namespace ElmAtlas.Toml

inductive Value where
  | text (value : String)
  | integer (value : Int)
  | float (literal : String)
  | boolean (value : Bool)
  | moment (literal : String)
  | array (items : List Value)
  | table (entries : List (String × Value))

namespace Value

/-- The fields of a record with the given names.  A table holds them by name and
an array by position; a point in time counts as a record without any of them. -/
def fields? (names : List String) : Value → Option (List (Option Value))
  | .table entries => some (names.map fun name => entries.lookup name)
  | .array items => some ((List.range names.length).map fun position => items[position]?)
  | .moment _ => some (names.map fun _ => none)
  | _ => none

def text? : Value → Option String
  | .text value => some value
  | _ => none

def boolean? : Value → Option Bool
  | .boolean value => some value
  | _ => none

def items? : Value → Option (List Value)
  | .array items => some items
  | _ => none

end Value

/-- A field that may be absent: absent is `some none`, a value of the wrong kind
is none. -/
def optionalField {α : Type} (read : Value → Option α) : Option Value → Option (Option α)
  | none => some none
  | some value => (read value).map some

end ElmAtlas.Toml
