import ElmAtlas.Command
import ElmAtlas.Diagnostic
import ElmAtlas.Disk
import ElmAtlas.Path.Search
import ElmAtlas.Project
import ElmAtlas.Settings

/-!
# External tools

Where the tools are, how they are run and what versions they report.
-/

namespace ElmAtlas

inductive Tool where
  | compiler
  | formatter
  | testRunner
  | reviewer
  deriving DecidableEq, Repr

namespace Tool

def all : List Tool :=
  [compiler, formatter, testRunner, reviewer]

def programName : Tool → String
  | compiler => "elm"
  | formatter => "elm-format"
  | testRunner => "elm-test"
  | reviewer => "elm-review"

instance : ToString Tool := ⟨programName⟩

end Tool

/-- Why a tool gave no answer; every fault names the tool and whom it was run
for. -/
inductive ToolFault where
  | notConfigured (tool : Tool) (project : String)
  | launch (tool : Tool) (project : String) (path : Path) (cause : String)
  | failed (tool : Tool) (project : String) (status : Option Int) (stderr : String)
  | output (tool : Tool) (project : String) (reason : String)
  deriving DecidableEq, Repr

namespace ToolFault

def tool : ToolFault → Tool
  | notConfigured tool _ => tool
  | launch tool _ _ _ => tool
  | failed tool _ _ _ => tool
  | output tool _ _ => tool

def project : ToolFault → String
  | notConfigured _ project => project
  | launch _ project _ _ => project
  | failed _ project _ _ => project
  | output _ project _ => project

def exitText : Option Int → String
  | some code => s!"exit code {code}"
  | none => "terminated by signal"

def message : ToolFault → String
  | notConfigured tool project => s!"`{tool}` is not configured (needed for {project})"
  | launch tool project path _ => s!"failed to launch `{tool}` at {path} for {project}"
  | failed tool project status _ => s!"`{tool}` failed for {project} ({exitText status})"
  | output tool project reason =>
      s!"unexpected output from `{tool}` for {project}: {reason}"

def report (fault : ToolFault) : Report :=
  match fault with
  | notConfigured _ _ =>
      ⟨fault.message, [],
        some ("set the path under [toolchain] in .elm-workspace/config.toml " ++
          "or put the tool on PATH"),
        "elm_workspace::tool::not_configured"⟩
  | launch _ _ _ cause =>
      ⟨fault.message, [cause],
        some "check that the configured path points at an executable",
        "elm_workspace::tool::launch"⟩
  | failed _ _ _ _ => ⟨fault.message, [], none, "elm_workspace::tool::failed"⟩
  | output _ _ _ => ⟨fault.message, [], none, "elm_workspace::tool::output"⟩

end ToolFault

structure Toolchain where
  compiler : Option Path := none
  formatter : Option Path := none
  testRunner : Option Path := none
  reviewer : Option Path := none
  deriving DecidableEq, Repr

namespace Toolchain

/-- The path that a setting names; blanks alone name none. -/
def pathOf? (setting : String) : Option Path :=
  match Text.trim setting.toList with
  | [] => none
  | characters => some ⟨String.ofList characters⟩

def ofSettings (settings : Settings) : Toolchain where
  compiler := pathOf? settings.elmCompilerPath
  formatter := pathOf? settings.elmFormatPath
  testRunner := pathOf? settings.elmTestPath
  reviewer := pathOf? settings.elmReviewPath

def path? (toolchain : Toolchain) : Tool → Option Path
  | .compiler => toolchain.compiler
  | .formatter => toolchain.formatter
  | .testRunner => toolchain.testRunner
  | .reviewer => toolchain.reviewer

def setPath (toolchain : Toolchain) (tool : Tool) (path : Option Path) : Toolchain :=
  match tool with
  | .compiler => { toolchain with compiler := path }
  | .formatter => { toolchain with formatter := path }
  | .testRunner => { toolchain with testRunner := path }
  | .reviewer => { toolchain with reviewer := path }

/-- Writes the tool paths into settings and leaves the rest alone. -/
def applyTo (toolchain : Toolchain) (settings : Settings) : Settings :=
  let text (tool : Tool) : String := ((toolchain.path? tool).map Path.text).getD ""
  { settings with
    elmCompilerPath := text .compiler
    elmFormatPath := text .formatter
    elmTestPath := text .testRunner
    elmReviewPath := text .reviewer }

/-- The first file of a name that may be run, told as `Path.rooted` tells it. -/
def findExecutable? (disk : Disk) (home : Option Path) (searchPath name : String) :
    Option Path :=
  ((Path.candidates home searchPath name).find? disk.isExecutable).map (·.rooted disk.cwd)

/-- Looks up the tools that are not set; returns those that were found. -/
def suggest (lookup : String → Option Path) :
    List Tool → Toolchain → Toolchain × List Tool
  | [], toolchain => (toolchain, [])
  | tool :: tools, toolchain =>
      match toolchain.path? tool, lookup tool.programName with
      | none, some path =>
          let (filled, found) := suggest lookup tools (toolchain.setPath tool (some path))
          (filled, tool :: found)
      | _, _ => suggest lookup tools toolchain

/-- Whom a tool is run for when there is no project. -/
def workspaceScope : String :=
  "the workspace"

def scopeOf (project : Option Project) : String :=
  (project.map Project.presentableName).getD workspaceScope

def require (toolchain : Toolchain) (tool : Tool) (project : Option Project) :
    Except ToolFault Path :=
  match toolchain.path? tool with
  | some path => .ok path
  | none => .error (.notConfigured tool (scopeOf project))

section Running

variable {m : Type → Type} [Monad m]

/-- Runs a tool, in the directory of the project if there is one.  What its exit
status means is for the caller to say. -/
def run (toolchain : Toolchain) (invoke : Invoker m) (tool : Tool) (arguments : List String)
    (project : Option Project) : m (Except ToolFault ToolOutput) := do
  match toolchain.require tool project with
  | .error fault => return .error fault
  | .ok path =>
      match ← invoke ⟨path, arguments, project.map Project.directory⟩ with
      | .ok output => return .ok output
      | .error cause => return .error (.launch tool (scopeOf project) path cause)

/-- The first line of output that is not blank. -/
def firstLine? (output : String) : Option String :=
  (((Text.lines output.toList).map Text.trim).find? fun line => !line.isEmpty).map String.ofList

/-- What a finished run with `--version` says. -/
def versionOf (tool : Tool) (output : ToolOutput) : Except ToolFault String :=
  if !output.isSuccess then
    .error (.failed tool workspaceScope output.status output.stderr)
  else
    match firstLine? output.stdout with
    | some line => .ok line
    | none => .error (.output tool workspaceScope "empty version output")

def toolVersion (toolchain : Toolchain) (invoke : Invoker m) (tool : Tool) :
    m (Except ToolFault String) := do
  match ← toolchain.run invoke tool ["--version"] none with
  | .error fault => return .error fault
  | .ok output => return versionOf tool output

def compilerVersion (toolchain : Toolchain) (invoke : Invoker m) :
    m (Except ToolFault Version) := do
  match ← toolchain.toolVersion invoke .compiler with
  | .error fault => return .error fault
  | .ok text =>
      match Version.parse text with
      | .ok version => return .ok version
      | .error fault => return .error (.output .compiler workspaceScope fault.message)

/-- What a probe of one tool found. -/
structure Status where
  tool : Tool
  path : Option Path
  version : Except ToolFault String

def report (toolchain : Toolchain) (invoke : Invoker m) : m (List Status) :=
  Tool.all.mapM fun tool => do
    return ⟨tool, toolchain.path? tool, ← toolchain.toolVersion invoke tool⟩

end Running

namespace Status

def line (status : Status) : String :=
  let name := Text.padRight 11 status.tool.programName
  let location := (status.path.map Path.text).getD "not configured"
  match status.version with
  | .ok version => s!"✓ {name} {version} ({location})\n"
  | .error (.notConfigured _ _) => s!"✗ {name} {location}\n"
  | .error fault => s!"✗ {name} {location} ({fault.message})\n"

end Status

def renderReport (statuses : List Status) : String :=
  String.join (statuses.map Status.line)

end Toolchain

end ElmAtlas
