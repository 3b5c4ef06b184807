import ElmAtlas.Json.Decode
import ElmAtlas.Path.Basic

/-!
# Sidecar manifests

A file `elm.intellij.json` beside a manifest may move the tests directory of an
application.  The directory is given relative to the project, with either
separator, and must stay inside the project.
-/

namespace ElmAtlas

namespace Sidecar

def fileName : String :=
  "elm.intellij.json"

/-- Where tests are kept when no sidecar says otherwise. -/
def defaultTestDirectory : Path :=
  ⟨"tests"⟩

/-- What is wrong with a tests directory. -/
inductive Objection where
  | notRelative
  | leavesProject
  | namesNothing
  deriving DecidableEq, Repr

namespace Objection

def message : Objection → String
  | notRelative => "path must be relative to the project directory"
  | leavesProject => "path must not leave the project directory"
  | namesNothing => "path must name a directory below the project"

end Objection

inductive Fault where
  | document (mismatch : Json.Mismatch)
  | testDirectory (value : String) (objection : Objection)
  deriving DecidableEq, Repr

namespace Fault

def message : Fault → String
  | document mismatch => s!"invalid elm.intellij.json: {mismatch.message}"
  | testDirectory value objection =>
      s!"invalid test-directory `{value}` in elm.intellij.json: {objection.message}"

/-- The message and, below it, the mismatch that caused it. -/
def causes : Fault → List String
  | document mismatch => [(document mismatch).message, mismatch.message]
  | fault => [fault.message]

end Fault

/-- A text that a host would take for an absolute path: it begins with a
separator, or a colon is its second byte. -/
def looksAbsolute : List Char → Bool
  | '/' :: _ => true
  | '\\' :: _ => true
  | first :: ':' :: _ => first.utf8Size == 1
  | _ => false

/-- Walks down the segments of a tests directory; `kept` holds the segments so
far, last first.  None when `..` leaves the project. -/
def resolveSegments (kept : List String) : List String → Option (List String)
  | [] => some kept.reverse
  | "." :: rest => resolveSegments kept rest
  | ".." :: rest =>
      match kept with
      | [] => none
      | _ :: earlier => resolveSegments earlier rest
  | segment :: rest => resolveSegments (segment :: kept) rest

/-- The normal form of a tests directory. -/
def normalizeTestDirectory (value : String) : Except Fault Path :=
  let given := Text.trim value.toList
  if looksAbsolute given then
    .error (.testDirectory value .notRelative)
  else
    match resolveSegments [] (Path.portablePieces (String.ofList given)) with
    | none => .error (.testDirectory value .leavesProject)
    | some [] => .error (.testDirectory value .namesNothing)
    | some segments => .ok ⟨String.intercalate "/" segments⟩

/-- The fields of a sidecar while it is read. -/
structure Draft where
  testDirectory : Option String := none

def fields : List (Json.Decode.Field Draft) := [
  { name := "test-directory"
    isFilled := fun draft => draft.testDirectory.isSome
    fill := fun document draft =>
      return { draft with testDirectory := some (← Json.Decode.text document) } }]

def decode : Json.Decoder String := fun document => do
  let draft ← Json.Decode.draft .direct "struct RawSidecar" fields {} document
  Json.Decode.required "test-directory" draft.testDirectory

/-- Reads the tests directory from the bytes of a sidecar. -/
def parse (content : ByteArray) : Except Fault Path :=
  match Json.Decode.bytes decode content with
  | .error mismatch => .error (.document mismatch)
  | .ok value => normalizeTestDirectory value

/-- Whether a tests directory differs from the default. -/
def isCustom (directory : Path) : Bool :=
  !directory.sameAs defaultTestDirectory

end Sidecar

end ElmAtlas
