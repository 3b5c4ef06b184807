import ElmAtlas.CommandLine.Host
import ElmAtlas.CommandLine.Listing

/-!
# Running a command line

A command line is a function from the host and the disk to what is printed, the exit code and
the disk afterwards.  Most actions print when their work is done.  A print that is refused ends
the program on the spot, and what was done before stays done.
-/

namespace ElmAtlas.CommandLine

structure Outcome where
  code : Nat
  stdout : String
  stderr : String
  disk : Disk

namespace Outcome

/-- The exit code of a program that could not go on. -/
def abortCode : Nat := 101

end Outcome

inductive Ending where
  | done
  | failed (diagnostic : Diagnostic)
  /-- Something could not be printed. -/
  | refused (reason : String)

/-- What an action leaves, and what it has printed. -/
structure Answer where
  disk : Disk
  printed : List String
  ending : Ending

namespace Answer

def failed (disk : Disk) (diagnostic : Diagnostic) : Answer :=
  ⟨disk, [], .failed diagnostic⟩

/-- Goes on with the value of a step, or stops with its failure. -/
def step {α : Type} (disk : Disk) (outcome : Except Failure α) (continuation : α → Answer) :
    Answer :=
  match outcome with
  | .ok value => continuation value
  | .error failure => failed disk (.ofFailure failure)

def tell (host : Host) (disk : Disk) (pieces : List String) : Answer :=
  match host.output.print [] pieces with
  | (taken, none) => ⟨disk, taken, .done⟩
  | (taken, some reason) => ⟨disk, taken, .refused reason⟩

/-- A failure is told where errors are told; if it cannot be, the program ends as it does
when a print is refused. -/
def toOutcome (host : Host) (answer : Answer) : Outcome :=
  let stdout := String.join answer.printed
  match answer.ending with
  | .done => ⟨0, stdout, "", answer.disk⟩
  | .failed diagnostic =>
      let text := diagnostic.render host.isTerminal
      match host.errorOutput [] text with
      | none => ⟨1, stdout, text, answer.disk⟩
      | some _ => ⟨Outcome.abortCode, stdout, "", answer.disk⟩
  | .refused reason =>
      ⟨Outcome.abortCode, stdout, host.told s!"failed printing to stdout: {reason}\n", answer.disk⟩

end Answer

/-- What every action on a workspace knows. -/
structure Context where
  root : Path
  config : Config
  cache : PackageCache
  host : Host

namespace Context

/-- The home directory of the user, if one is named. -/
def home? (environment : Environment) : Option Path :=
  match environment.get? "HOME" with
  | some home => if home.isEmpty then none else some ⟨home⟩
  | none => none

def cacheOf (environment : Environment) : PackageCache :=
  match environment.get? "ELM_HOME" with
  | some home => ⟨some ⟨home⟩⟩
  | none => ⟨(home? environment).map (·.child ".elm")⟩

/-- The configuration of the user below that of the workspace. -/
def configOf (environment : Environment) (disk : Disk) (root : Path) : Config :=
  match home? environment with
  | some home => Config.loadLayers disk (Config.file home) (Config.file root)
  | none => Config.loadOrDefault disk (Config.file root)

/-- Fails when the root is no directory. -/
def create (host : Host) (disk : Disk) (root : Option Path) : Except Failure Context :=
  let place := disk.absolute (root.getD disk.cwd)
  if disk.isDirectory place then
    .ok ⟨place, configOf host.environment disk place, cacheOf host.environment, host⟩
  else
    .error (.ofText s!"workspace root {place} is not a directory")

def openWorkspace (context : Context) (disk : Disk) : Except Failure Workspace :=
  Workspace.openAt disk context.cache context.root context.config

def saving (context : Context) (disk : Disk) (workspace : Workspace) (pieces : List String) :
    Answer :=
  let saved := workspace.persist disk context.root
  match saved.fault with
  | none => .tell context.host saved.disk pieces
  | some failure => .failed saved.disk (.ofFailure failure)

/-- Opens the workspace, then acts on it. -/
def withWorkspace (context : Context) (disk : Disk) (action : Workspace → Answer) : Answer :=
  .step disk (context.openWorkspace disk) action

end Context

/-- Saved settings survive a scan; only the projects are replaced. -/
def discover (context : Context) (disk : Disk) : Answer :=
  .step disk (State.loadIfPresent disk (State.file context.root)) fun saved =>
    let settings := (saved.map State.settings).getD context.config.toSettings
    let (requested, task) := (Workspace.withSettings settings).spawnDiscover
      context.host.threadRefusal (Workspace.scan disk context.cache context.root)
    .step disk (task.bind BackgroundTask.join) fun (ticket, found) =>
      let (workspace, projects) := requested.discoverUnder ticket found
      context.saving disk workspace (discoveredListing context.root projects)

def attach (context : Context) (disk : Disk) (workspace : Workspace) (path : Path) :
    Answer :=
  match workspace.attach disk context.cache path with
  | (_, .error fault) => .failed disk (.ofReport fault.report)
  | (attached, .ok project) =>
      context.saving disk attached
        [s!"Attached {project.kind.label} {project.presentableName} " ++
          s!"({shownPath context.root project.manifestPath})\n"]

/-- The manifest that a path names: that of an attached project, by itself or
by its directory, or else the path itself. -/
def attachedManifest (workspace : Workspace) (path : Path) : Path :=
  match workspace.projects.find? fun project =>
      project.manifestPath.sameAs path || project.directory.sameAs path with
  | some project => project.manifestPath
  | none => path

def detach (context : Context) (disk : Disk) (workspace : Workspace) (path : Path) :
    Answer :=
  let manifest := attachedManifest workspace (disk.absolute path)
  let shown := shownPath context.root manifest
  match workspace.detach disk manifest with
  | (_, false) => .failed disk (.ofFailure (.ofText s!"{shown} is not attached"))
  | (detached, true) => context.saving disk detached [s!"Detached {shown}\n"]

def which (context : Context) (disk : Disk) (workspace : Workspace) (path : Path) : Answer :=
  let file := disk.absolute path
  match workspace.projectForFile? disk file with
  | none =>
      .failed disk (.ofFailure (.ofText
        s!"{shownPath context.root file} does not belong to any attached Elm project"))
  | some project =>
      .tell context.host disk [s!"{project.presentableName} ({project.kind.label}, " ++
        s!"{shownPath context.root project.manifestPath})\n"]

def review (context : Context) (disk : Disk) (workspace : Workspace) (path : Path)
    (isJson : Bool) : Answer :=
  let toolchain := Toolchain.ofSettings workspace.settings
  let (outcome, after) :=
    (Review.run workspace disk toolchain context.host.invoke (disk.absolute path)).run disk
  match outcome with
  | .ok messages => .tell context.host after (messagesListing isJson messages)
  | .error fault => .failed after fault.diagnostic

def showTools (context : Context) (disk : Disk) (workspace : Workspace) : Answer :=
  let settings := workspace.settings
  let (statuses, after) :=
    ((Toolchain.ofSettings settings).report context.host.invoke).run disk
  let onSave := if settings.isFormatOnSaveEnabled then "enabled" else "disabled"
  .tell context.host after ["Toolchain:\n", "\n", Toolchain.renderReport statuses, "\n",
    s!"Format on save: {onSave}\n"]

/-- Looks up the tools that are not set and remembers those that were found. -/
def suggestTools (context : Context) (disk : Disk) (workspace : Workspace) : Answer :=
  let environment := context.host.environment
  let lookup (name : String) : Option Path :=
    (environment.get? "PATH").bind fun searchPath =>
      Toolchain.findExecutable? disk (Context.home? environment) searchPath name
  let (toolchain, found) :=
    Toolchain.suggest lookup Tool.all (Toolchain.ofSettings workspace.settings)
  if found.isEmpty then .tell context.host disk ["No new tools found on PATH\n"]
  else
    let lines := found.filterMap fun tool =>
      (toolchain.path? tool).map fun path => s!"Found {tool} at {path}\n"
    context.saving disk (workspace.updateSettings toolchain.applyTo) lines

/-- Changes are told as they are made, before they are saved. -/
def setTools (context : Context) (disk : Disk) (workspace : Workspace)
    (change : ToolchainChange) : Answer :=
  let told := Answer.tell context.host disk
    (change.paths.map fun (tool, path) => s!"Set {tool} to {path}\n")
  match told.ending with
  | .done =>
      let toolchain := change.paths.foldl
        (fun toolchain (tool, path) => toolchain.setPath tool (some path))
        (Toolchain.ofSettings workspace.settings)
      let changed := workspace.updateSettings fun settings =>
        let applied := toolchain.applyTo settings
        { applied with
          isFormatOnSaveEnabled := change.formatOnSave.getD applied.isFormatOnSaveEnabled }
      { context.saving disk changed [] with printed := told.printed }
  | _ => told

/-- An action on the workspace of a context. -/
def act (context : Context) (disk : Disk) : Action → Answer
  | .discover => discover context disk
  | .attach path => context.withWorkspace disk (attach context disk · path)
  | .detach path => context.withWorkspace disk (detach context disk · path)
  | .projects isJson => context.withWorkspace disk fun workspace =>
      .tell context.host disk (projectsListing context.root isJson workspace.projects)
  | .which file => context.withWorkspace disk (which context disk · file)
  | .review file isJson => context.withWorkspace disk (review context disk · file isJson)
  | .showTools => context.withWorkspace disk (showTools context disk)
  | .suggestTools => context.withWorkspace disk (suggestTools context disk)
  | .setTools change => context.withWorkspace disk (setTools context disk · change)
  | .state => context.withWorkspace disk fun workspace =>
      .tell context.host disk [workspace.state.render]

/-- A completion script is printed, or written to a file, which is told apart
from the output. -/
def complete (host : Host) (disk : Disk) (dialect : Dialect) (output : Option Path) : Outcome :=
  match output with
  | none => (Answer.tell host disk [host.script dialect]).toOutcome host
  | some path =>
      let written := disk.replaceFile path (host.script dialect)
      match written.fault with
      | some failure => (Answer.failed written.disk (.ofFailure failure)).toOutcome host
      | none =>
          let text := s!"Wrote {dialect.name} completions to {path}\n"
          match host.errorOutput [] text with
          | none => ⟨0, "", text, written.disk⟩
          | some _ => ⟨Outcome.abortCode, "", "", written.disk⟩

def versionText : String :=
  "elm-workspace 0.1.0\n"

/-- What is left of a command line that starts nothing.  If its text is refused, that has no
further consequence. -/
def stop (host : Host) (disk : Disk) (arguments : List String) : Halt → Outcome
  | .usage => ⟨2, "", host.told (host.complaint arguments), disk⟩
  | .help => ⟨0, String.join (host.output.print [] [host.help arguments]).1, "", disk⟩
  | .version => ⟨0, String.join (host.output.print [] [versionText]).1, "", disk⟩

def run (host : Host) (disk : Disk) (arguments : List String) : Outcome :=
  match parse (host.environment.get? "ELM_WORKSPACE_ROOT") arguments with
  | .error halt => stop host disk arguments halt
  | .ok (.complete dialect output) => complete host disk dialect output
  | .ok (.act root action) =>
      match Context.create host disk root with
      | .error failure => (Answer.failed disk (.ofFailure failure)).toOutcome host
      | .ok context => (act context disk action).toOutcome host

end ElmAtlas.CommandLine
