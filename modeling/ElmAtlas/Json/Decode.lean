import ElmAtlas.Json.Mismatch
import ElmAtlas.Json.Reader
import ElmAtlas.NameMap

/-!
# Decoding documents

A decoder visits a document in the order in which it is written and stops at the
first mismatch.  A record is read from an object, whose unknown members are
skipped, or from an array that lists the fields in order.

There are two disciplines.  A direct document is decoded while it is read, so a
mismatch hides all later grammar errors.  A buffered document carries a tag that
says which record it holds; the rest is read completely before it is decoded.
-/

namespace ElmAtlas.Json

abbrev Decoder (α : Type) := Document → Except Mismatch α

/-- Which discipline a record is read under; they differ in how an array with
too many items is refused. -/
inductive Discipline where
  | direct
  | buffered
  deriving DecidableEq

/-- Arrays and objects of a buffered document nest at most this deep. -/
def nestingLimit : Nat := 127

namespace Decode

def text : Decoder String
  | .text (some value) => .ok value
  | document => .error (document.wrongType "a string")

def boolean : Decoder Bool
  | .boolean value => .ok value
  | document => .error (document.wrongType "a boolean")

/-- A number of 32 bits without sign. -/
def word : Decoder UInt32
  | .number (some (.natural value)) =>
      if value < UInt32.size then .ok (UInt32.ofNat value)
      else .error (.wrongValue (Number.natural value).described "u32")
  | .number (some (.negative magnitude)) =>
      .error (.wrongValue (Number.negative magnitude).described "u32")
  | document => .error (document.wrongType "u32")

/-- A text that has a further meaning. -/
def textAs {α : Type} (parse : String → Except String α) : Decoder α := fun document => do
  match parse (← text document) with
  | .ok value => .ok value
  | .error reason => .error (.refused reason)

def items {α : Type} (decode : Decoder α) : List Document → Except Mismatch (List α)
  | [] => .ok []
  | item :: rest => do
      let first ← decode item
      return first :: (← items decode rest)

def list {α : Type} (decode : Decoder α) : Decoder (List α)
  | .array documents => items decode documents
  | document => .error (document.wrongType "a sequence")

def members {α : Type} (decode : Decoder α) :
    List (Option String × Document) → Except Mismatch (List (String × α))
  | [] => .ok []
  | (none, _) :: _ => .error .grammar
  | (some key, value) :: rest => do
      let first ← decode value
      return (key, first) :: (← members decode rest)

/-- A map from names; of a name that occurs twice the last value counts. -/
def map {α : Type} (decode : Decoder α) : Decoder (NameMap α)
  | .object entries => NameMap.ofList <$> members decode entries
  | document => .error (document.wrongType "a map")

/-- One field of a record that is being filled in. -/
structure Field (draft : Type) where
  name : String
  isFilled : draft → Bool
  fill : Document → draft → Except Mismatch draft
  isOptional : Bool := false

/-- Fills a draft from the members of an object. -/
def fillMembers {draft : Type} (fields : List (Field draft)) :
    List (Option String × Document) → draft → Except Mismatch draft
  | [], filled => .ok filled
  | (none, _) :: _, _ => .error .grammar
  | (some key, value) :: rest, filled =>
      match fields.find? (·.name == key) with
      | some field =>
          if field.isFilled filled then .error (.duplicateField key)
          else do fillMembers fields rest (← field.fill value filled)
      | none =>
          if value.isWhole then fillMembers fields rest filled else .error .grammar

/-- Fills a draft from the items of an array; `position` counts the fields
passed. -/
def fillItems {draft : Type} (discipline : Discipline) (expected : String) :
    (position : Nat) → List (Field draft) → List Document → draft → Except Mismatch draft
  | _, [], [], filled => .ok filled
  | position, [], surplus, _ =>
      match discipline with
      | .direct => .error .grammar
      | .buffered =>
          .error (.wrongLength (position + surplus.length)
            (Mismatch.elements position ++ " in sequence"))
  | position, field :: fields, [], filled =>
      if field.isOptional then fillItems discipline expected (position + 1) fields [] filled
      else .error (.wrongLength position expected)
  | position, field :: fields, item :: items, filled => do
      fillItems discipline expected (position + 1) fields items (← field.fill item filled)

/-- Fills a draft from an object or an array.  Fields that an object leaves out
are found when the draft is finished. -/
def draft {draft : Type} (discipline : Discipline) (title : String)
    (fields : List (Field draft)) (blank : draft) : Decoder draft
  | .object entries => fillMembers fields entries blank
  | .array documents =>
      fillItems discipline (s!"{title} with " ++ Mismatch.elements fields.length) 0 fields
        documents blank
  | document => .error (document.wrongType title)

/-- The value of a field that has to be there. -/
def required {α : Type} (name : String) : Option α → Except Mismatch α
  | some value => .ok value
  | none => .error (.missingField name)

/-- The tag of a buffered document and the document without it. -/
def tagOf (known : List String) : Decoder String
  | .text (some tag) =>
      if known.contains tag then .ok tag else .error (.unknownVariant tag known)
  | document => .error (document.wrongType "variant identifier")

/-- Reads all members of a buffered object.  The tag is checked where it
stands; everything else only has to be readable. -/
def splitTag (known : List String) :
    List (Option String × Document) → (tag : Option String) →
      (others : List (Option String × Document)) →
        Except Mismatch (Option String × List (Option String × Document))
  | [], tag, others => .ok (tag, others.reverse)
  | (none, _) :: _, _, _ => .error .grammar
  | (some key, value) :: rest, tag, others =>
      if key == "type" then
        match tag with
        | some _ => .error (.duplicateField "type")
        | none => do splitTag known rest (some (← tagOf known value)) others
      else if value.isReadable (nestingLimit - 1) then
        splitTag known rest tag ((some key, value) :: others)
      else
        .error .grammar

/-- Separates the tag from the rest of a buffered document. -/
def tagged (title : String) (known : List String) : Decoder (String × Document)
  | .object entries => do
      let (tag, others) ← splitTag known entries none []
      return (← required "type" tag, .object others)
  | .array [] => .error (.missingField "type")
  | .array (first :: rest) => do
      let tag ← tagOf known first
      if Document.areReadable (nestingLimit - 1) rest then
        return (tag, .array rest)
      else
        .error .grammar
  | document => .error (document.wrongType title)

/-- Decodes the bytes of a file; nothing but space may follow the document. -/
def bytes {α : Type} (decode : Decoder α) (content : ByteArray) : Except Mismatch α := do
  let reading := read content
  let value ← decode reading.document
  if reading.hasSurplus then .error .grammar else return value

end Decode

end ElmAtlas.Json
