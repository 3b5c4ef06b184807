import ElmAtlas.Json.Number

/-!
# Documents

A document is read as far as its grammar allows.  Where the grammar breaks, the
tree holds a `fault` and nothing behind it, so a decoder that visits the tree in
document order meets a mismatch before a later grammar error, and the other way
round.

Two kinds of leaves are grammatical but not readable: a text with a lone
surrogate or bytes that are not UTF-8, and a number beyond all doubles.  They do
no harm in a part that nobody reads.
-/

namespace ElmAtlas.Json

inductive Document where
  | null
  | boolean (value : Bool)
  | number (value : Option Number)
  | text (value : Option String)
  | array (items : List Document)
  | object (members : List (Option String × Document))
  | fault

namespace Document

mutual

/-- Whether the grammar held to the end of the document. -/
def isWhole : Document → Bool
  | .array items => areWhole items
  | .object members => membersAreWhole members
  | .fault => false
  | _ => true

def areWhole : List Document → Bool
  | [] => true
  | item :: items => item.isWhole && areWhole items

def membersAreWhole : List (Option String × Document) → Bool
  | [] => true
  | (_, value) :: members => value.isWhole && membersAreWhole members

end

mutual

/-- Whether every leaf can be read and arrays and objects nest at most `depth`
deep. -/
def isReadable : (depth : Nat) → Document → Bool
  | _, .number value => value.isSome
  | _, .text value => value.isSome
  | 0, .array _ => false
  | 0, .object _ => false
  | depth + 1, .array items => areReadable depth items
  | depth + 1, .object members => membersAreReadable depth members
  | _, .fault => false
  | _, _ => true

def areReadable : (depth : Nat) → List Document → Bool
  | _, [] => true
  | depth, item :: items => item.isReadable depth && areReadable depth items

def membersAreReadable : (depth : Nat) → List (Option String × Document) → Bool
  | _, [] => true
  | depth, (key, value) :: members =>
      key.isSome && value.isReadable depth && membersAreReadable depth members

end

end Document

end ElmAtlas.Json
