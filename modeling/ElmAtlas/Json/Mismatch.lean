import ElmAtlas.Json.Document
import ElmAtlas.Text.Quoted

/-!
# Why a document does not have the expected shape
-/

namespace ElmAtlas.Json

inductive Mismatch where
  | grammar
  | missingField (name : String)
  | duplicateField (name : String)
  | unknownVariant (found : String) (known : List String)
  | wrongType (found expected : String)
  | wrongValue (found expected : String)
  | wrongLength (length : Nat) (expected : String)
  | noVariant (name : String)
  | refused (reason : String)
  deriving DecidableEq, Repr

namespace Mismatch

/-- The known variants as they are listed in a message. -/
def alternatives (known : List String) : String :=
  match known.map fun name => s!"`{name}`" with
  | [] => "none"
  | [only] => only
  | [first, second] => s!"{first} or {second}"
  | several => "one of " ++ String.intercalate ", " several

def message : Mismatch → String
  | grammar => "JSON syntax error"
  | missingField name => s!"missing field `{name}`"
  | duplicateField name => s!"duplicate field `{name}`"
  | unknownVariant found known =>
      s!"unknown variant `{found}`, expected {alternatives known}"
  | wrongType found expected => s!"invalid type: {found}, expected {expected}"
  | wrongValue found expected => s!"invalid value: {found}, expected {expected}"
  | wrongLength length expected => s!"invalid length {length}, expected {expected}"
  | noVariant name => s!"data did not match any variant of untagged enum {name}"
  | refused reason => reason

/-- The count of things with its noun. -/
def elements (count : Nat) : String :=
  if count == 1 then "1 element" else s!"{count} elements"

end Mismatch

namespace Document

/-- What a decoder says when it expected something else.  Of a leaf that cannot
be read it says so. -/
def wrongType (document : Document) (expected : String) : Mismatch :=
  match document with
  | .null => .wrongType "null" expected
  | .boolean value => .wrongType s!"boolean `{value}`" expected
  | .number (some value) => .wrongType value.described expected
  | .text (some value) => .wrongType ("string " ++ Text.quote value) expected
  | .array _ => .wrongType "sequence" expected
  | .object _ => .wrongType "map" expected
  | .number none | .text none | .fault => .grammar

end Document

end ElmAtlas.Json
