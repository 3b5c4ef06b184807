import ElmAtlas.Json.Decode
import ElmAtlas.Manifest.Shape
import ElmAtlas.Toolchain
import ElmAtlas.Workspace.Operations

/-!
# Reviews

The reviewer is run in the directory of a project and prints a report.  A report
lists problems by file; they are told in the order of their locations.
-/

namespace ElmAtlas

namespace Review

structure Position where
  line : UInt32
  column : UInt32
  deriving DecidableEq, Repr

structure Region where
  start : Position
  stop : Position
  deriving DecidableEq, Repr

/-- One problem, with the path of its file as reported. -/
structure Message where
  path : String
  rule : String
  message : String
  details : List String
  region : Region
  deriving DecidableEq, Repr

namespace Message

/-- Messages are ordered by path, then line, then column of their start. -/
def isBefore (left right : Message) : Bool :=
  left.path < right.path ||
    (left.path == right.path &&
      (left.region.start.line < right.region.start.line ||
        (left.region.start.line == right.region.start.line &&
          left.region.start.column < right.region.start.column)))

end Message

open Json
open Manifest (fieldOf)

structure PositionDraft where
  line : Option UInt32 := none
  column : Option UInt32 := none

def positionFields : List (Decode.Field PositionDraft) := [
  fieldOf "line" (·.line) (fun draft value => { draft with line := some value })
    Decode.word false,
  fieldOf "column" (·.column) (fun draft value => { draft with column := some value })
    Decode.word false]

def position : Decoder Position := fun document => do
  let draft ← Decode.draft .buffered "struct Position" positionFields {} document
  return ⟨← Decode.required "line" draft.line, ← Decode.required "column" draft.column⟩

structure RegionDraft where
  start : Option Position := none
  stop : Option Position := none

def regionFields : List (Decode.Field RegionDraft) := [
  fieldOf "start" (·.start) (fun draft value => { draft with start := some value })
    position false,
  fieldOf "end" (·.stop) (fun draft value => { draft with stop := some value })
    position false]

def region : Decoder Region := fun document => do
  let draft ← Decode.draft .buffered "struct Region" regionFields {} document
  return ⟨← Decode.required "start" draft.start, ← Decode.required "end" draft.stop⟩

/-- A problem without the path of its file. -/
structure Problem where
  rule : String
  message : String
  details : List String
  region : Region
  deriving DecidableEq, Repr

structure ProblemDraft where
  rule : Option String := none
  message : Option String := none
  details : Option (List String) := none
  region : Option Region := none

def problemFields : List (Decode.Field ProblemDraft) := [
  fieldOf "rule" (·.rule) (fun draft value => { draft with rule := some value })
    Decode.text false,
  fieldOf "message" (·.message) (fun draft value => { draft with message := some value })
    Decode.text false,
  fieldOf "details" (·.details) (fun draft value => { draft with details := some value })
    (Decode.list Decode.text) true,
  fieldOf "region" (·.region) (fun draft value => { draft with region := some value })
    region false]

def problem : Decoder Problem := fun document => do
  let draft ← Decode.draft .buffered "struct RawRuleError" problemFields {} document
  return {
    rule := ← Decode.required "rule" draft.rule
    message := ← Decode.required "message" draft.message
    details := draft.details.getD []
    region := ← Decode.required "region" draft.region }

structure FileProblems where
  path : String
  problems : List Problem
  deriving DecidableEq, Repr

structure FileDraft where
  path : Option String := none
  problems : Option (List Problem) := none

def fileFields : List (Decode.Field FileDraft) := [
  fieldOf "path" (·.path) (fun draft value => { draft with path := some value })
    Decode.text false,
  fieldOf "errors" (·.problems) (fun draft value => { draft with problems := some value })
    (Decode.list problem) false]

def fileProblems : Decoder FileProblems := fun document => do
  let draft ← Decode.draft .buffered "struct RawFileErrors" fileFields {} document
  return ⟨← Decode.required "path" draft.path, ← Decode.required "errors" draft.problems⟩

/-- A piece of styled text, of which only the text counts. -/
structure ChunkDraft where
  text : Option String := none

def chunkFields : List (Decode.Field ChunkDraft) := [
  fieldOf "string" (·.text) (fun draft value => { draft with text := some value })
    Decode.text false]

def chunk? : Document → Option String
  | .text value => value
  | .object entries =>
      match Decode.fillMembers chunkFields entries {} with
      | .ok draft => draft.text
      | .error _ => none
  | _ => none

/-- Text that is given plainly or in styled pieces. -/
def styledText : Decoder String
  | .text (some value) => .ok value
  | .array documents =>
      match documents.mapM chunk? with
      | some chunks => .ok (String.join chunks)
      | none => .error (.noVariant "RawText")
  | _ => .error (.noVariant "RawText")

inductive Report where
  | problems (files : List FileProblems)
  | failure (title message : String)
  deriving DecidableEq, Repr

structure ProblemsDraft where
  files : Option (List FileProblems) := none

def problemsFields : List (Decode.Field ProblemsDraft) := [
  fieldOf "errors" (·.files) (fun draft value => { draft with files := some value })
    (Decode.list fileProblems) false]

structure FailureDraft where
  title : Option String := none
  message : Option String := none

def failureFields : List (Decode.Field FailureDraft) := [
  fieldOf "title" (·.title) (fun draft value => { draft with title := some value })
    Decode.text false,
  fieldOf "message" (·.message) (fun draft value => { draft with message := some value })
    styledText true]

def report : Decoder Report := fun document => do
  let (tag, body) ←
    Decode.tagged "internally tagged enum RawReport" ["review-errors", "error"] document
  if tag == "review-errors" then
    let draft ← Decode.draft .buffered "struct variant RawReport::ReviewErrors"
      problemsFields {} body
    return .problems (← Decode.required "errors" draft.files)
  else
    let draft ← Decode.draft .buffered "struct variant RawReport::Error"
      failureFields {} body
    return .failure (← Decode.required "title" draft.title) (draft.message.getD "")

/-- Pairs every problem with the path of its file, in document order. -/
def flatten (files : List FileProblems) : List Message :=
  files.flatMap fun file =>
    file.problems.map fun problem =>
      ⟨file.path, problem.rule, problem.message, problem.details, problem.region⟩

/-- Sorts by location; messages at one location stay in their order. -/
def sortMessages (messages : List Message) : List Message :=
  messages.mergeSort fun left right => !right.isBefore left

inductive ReportFault where
  | unreadable (mismatch : Mismatch)
  | told (title message : String)
  deriving DecidableEq, Repr

namespace ReportFault

def message : ReportFault → String
  | unreadable mismatch => s!"unreadable report: {mismatch.message}"
  | told title message => if message.isEmpty then title else s!"{title}: {message}"

end ReportFault

/-- The messages of a report; blank output reports nothing. -/
def parseReport (output : String) : Except ReportFault (List Message) :=
  if Text.isBlankText output then
    .ok []
  else
    match Decode.bytes report output.toUTF8 with
    | .error mismatch => .error (.unreadable mismatch)
    | .ok (.failure title message) => .error (.told title message)
    | .ok (.problems files) => .ok (sortMessages (flatten files))

inductive Fault where
  | noProject (file : Path)
  | tool (fault : ToolFault)
  deriving DecidableEq, Repr

namespace Fault

def message : Fault → String
  | noProject file => s!"{file} does not belong to any attached Elm project"
  | tool fault => fault.message

def report : Fault → ElmAtlas.Report
  | noProject file =>
      ⟨(noProject file).message, [],
        some "run `elm-workspace discover` or attach the project that owns this file",
        "elm_workspace::review::no_project"⟩
  | tool fault => fault.report

/-- What the user is told; a file without project gets one more hint. -/
def diagnostic (fault : Fault) : Diagnostic :=
  match fault with
  | noProject _ =>
      (Diagnostic.ofReport fault.report).withSuggestion
        "help: Run `elm-workspace discover` to rescan the workspace"
  | tool _ => Diagnostic.ofReport fault.report

end Fault

/-- The arguments of the reviewer; it shares the compiler if there is one. -/
def arguments (toolchain : Toolchain) : List String :=
  ["--report=json", "--namespace=elm-workspace"] ++
    match toolchain.compiler with
    | some compiler => ["--compiler", compiler.text]
    | none => []

/-- What the output of the reviewer means.  A status other than success is how
it says that there are problems, unless it says nothing else. -/
def judge (project : Project) (output : ToolOutput) : Except Fault (List Message) :=
  if !output.isSuccess && Text.isBlankText output.stdout then
    .error (.tool (.failed .reviewer project.presentableName output.status output.stderr))
  else
    match parseReport output.stdout with
    | .ok messages => .ok messages
    | .error reason =>
        .error (.tool (.output .reviewer project.presentableName reason.message))

section Running

variable {m : Type → Type} [Monad m]

/-- Reviews the project that owns a file. -/
def run (workspace : Workspace) (disk : Disk) (toolchain : Toolchain) (invoke : Invoker m)
    (file : Path) : m (Except Fault (List Message)) := do
  match workspace.projectForFile? disk file with
  | none => return .error (.noProject file)
  | some project =>
      match ← toolchain.run invoke .reviewer (arguments toolchain) (some project) with
      | .error fault => return .error (.tool fault)
      | .ok output => return judge project output

end Running

end Review

end ElmAtlas
