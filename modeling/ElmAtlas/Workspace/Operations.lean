import ElmAtlas.BackgroundTask
import ElmAtlas.Config
import ElmAtlas.Diagnostic
import ElmAtlas.Manifest.Load
import ElmAtlas.Workspace.Discovery
import ElmAtlas.Workspace.Ledger

/-!
# Operations on a workspace

Each operation is a function from a workspace and the disk to the workspace
afterwards and an answer.  Operations that replace the whole registry come in
two steps, so that other requests may happen between them: a ticket is taken
first, and the replacement is committed later.
-/

namespace ElmAtlas

inductive AttachFault where
  | notFound (path : Path)
  | inaccessible (path : Path) (fault : DiskFault)
  | manifest (fault : Manifest.Fault)
  deriving DecidableEq, Repr

namespace AttachFault

def message : AttachFault → String
  | notFound path => s!"no Elm manifest found at {path}"
  | inaccessible path _ => s!"failed to access {path}"
  | manifest fault => fault.message

def report (fault : AttachFault) : Report :=
  match fault with
  | notFound _ =>
      ⟨fault.message, [],
        some ("point at an elm.json or elm-package.json file, " ++
          "or the directory containing one"),
        "elm_workspace::attach::not_found"⟩
  | inaccessible _ cause =>
      ⟨fault.message, [cause.message], none, "elm_workspace::attach::io"⟩
  | manifest cause =>
      ⟨fault.message, cause.causes, some "fix the manifest and attach it again",
        "elm_workspace::attach::invalid_manifest"⟩

end AttachFault

namespace Workspace

/-- The manifest that a path names: a file itself, or the manifest of a
directory. -/
def resolveManifest (disk : Disk) (path : Path) : Except AttachFault Path :=
  match disk.node path with
  | .error .notFound => .error (.notFound path)
  | .error fault => .error (.inaccessible path fault)
  | .ok (.file _ _) => .ok path
  | .ok (.directory _) =>
      match ([Schema.current, Schema.legacy].map fun schema =>
          path.child schema.fileName).find? disk.isFile with
      | some manifest => .ok manifest
      | none => .error (.notFound path)

/-- Reads the project that a path names. -/
def readProject (disk : Disk) (cache : PackageCache) (path : Path) :
    Except AttachFault Project := do
  let manifest ← resolveManifest disk (disk.absolute path)
  match Manifest.load disk cache manifest with
  | .ok project => .ok project
  | .error fault => .error (.manifest fault)

/-- Commits an attachment that was requested under a ticket. -/
def attachUnder (workspace : Workspace) (ticket : Ticket)
    (outcome : Except AttachFault Project) : Workspace :=
  match outcome with
  | .ok project => workspace.commitChange ticket (.attached project)
  | .error _ => workspace

/-- Attaches the manifest that a path names. -/
def attach (workspace : Workspace) (disk : Disk) (cache : PackageCache) (path : Path) :
    Workspace × Except AttachFault Project :=
  let (requested, ticket) := workspace.requestChange
  let outcome := readProject disk cache path
  (requested.attachUnder ticket outcome, outcome)

/-- Detaches a manifest; says whether it was attached. -/
def detach (workspace : Workspace) (disk : Disk) (path : Path) : Workspace × Bool :=
  let (requested, ticket) := workspace.requestChange
  let manifest := disk.absolute path
  if requested.registry.isAttached manifest then
    (requested.commitChange ticket (.detached manifest), true)
  else
    (requested, false)

/-- The projects below a root whose manifests can be read. -/
def scan (disk : Disk) (cache : PackageCache) (root : Path) : List Project :=
  (Discovery.candidates disk (disk.absolute root)).filterMap fun manifest =>
    (Manifest.load disk cache manifest).toOption

/-- Commits a list of projects under a ticket.  Answers with the list, or with
the current projects when a later replacement came first. -/
def discoverUnder (workspace : Workspace) (ticket : Ticket) (found : List Project) :
    Workspace × List Project :=
  let (committed, fresh) := workspace.commitReplacement ticket fun registry =>
    { registry with projects := found }
  (committed, if fresh then found else committed.projects)

/-- Attaches exactly the manifests below a root. -/
def discover (workspace : Workspace) (disk : Disk) (cache : PackageCache) (root : Path) :
    Workspace × List Project :=
  let (requested, ticket) := workspace.requestReplacement
  requested.discoverUnder ticket (scan disk cache root)

/-- The registry that a state describes; entries that cannot be read are left
out. -/
def restore (disk : Disk) (cache : PackageCache) (state : State) : Registry :=
  state.paths.foldl
    (fun registry path =>
      match Manifest.load disk cache (disk.absolute ⟨path⟩) with
      | .ok project => registry.insert project
      | .error _ => registry)
    ⟨[], state.settings⟩

/-- Commits a restored registry under a ticket. -/
def loadUnder (workspace : Workspace) (ticket : Ticket) (restored : Registry) :
    Workspace × List Project :=
  let (committed, fresh) := workspace.commitReplacement ticket fun _ => restored
  (committed, if fresh then restored.projects else committed.projects)

/-- Replaces the whole workspace by a state. -/
def loadState (workspace : Workspace) (disk : Disk) (cache : PackageCache) (state : State) :
    Workspace × List Project :=
  let (requested, ticket) := workspace.requestReplacement
  requested.loadUnder ticket (restore disk cache state)

/-- Starts a discovery in the background.  The ticket is taken before the host
is asked for a thread; `refusal` is its answer when there is none. -/
def spawnDiscover (workspace : Workspace) (refusal : Option String) (found : List Project) :
    Workspace × Except Failure (BackgroundTask (Ticket × List Project)) :=
  let (requested, ticket) := workspace.requestReplacement
  (requested, BackgroundTask.spawn "discover-projects" refusal (some (ticket, found)))

/-- Starts loading a state in the background. -/
def spawnLoadState (workspace : Workspace) (refusal : Option String) (restored : Registry) :
    Workspace × Except Failure (BackgroundTask (Ticket × Registry)) :=
  let (requested, ticket) := workspace.requestReplacement
  (requested, BackgroundTask.spawn "load-state" refusal (some (ticket, restored)))

def projectForFile? (workspace : Workspace) (disk : Disk) (file : Path) : Option Project :=
  workspace.registry.owner? (disk.absolute file)

/-- The project attached under a manifest path. -/
def project? (workspace : Workspace) (disk : Disk) (path : Path) : Option Project :=
  workspace.registry.find? (disk.absolute path)

def state (workspace : Workspace) : State :=
  State.ofProjects workspace.projects workspace.settings

/-- Tools that saved settings leave unset are taken from the configuration. -/
def fillUnset (settings configured : Settings) : Settings :=
  let choose (saved fallback : String) : String := if saved.isEmpty then fallback else saved
  { settings with
    elmCompilerPath := choose settings.elmCompilerPath configured.elmCompilerPath
    elmFormatPath := choose settings.elmFormatPath configured.elmFormatPath
    elmTestPath := choose settings.elmTestPath configured.elmTestPath
    elmReviewPath := choose settings.elmReviewPath configured.elmReviewPath }

/-- The workspace of a root: as it was saved, or else as it is found. -/
def openAt (disk : Disk) (cache : PackageCache) (root : Path) (config : Config) :
    Except Failure Workspace := do
  let fresh := withSettings config.toSettings
  match ← State.loadIfPresent disk (State.file root) with
  | some saved =>
      let filled := { saved with settings := fillUnset saved.settings config.toSettings }
      return (fresh.loadState disk cache filled).1
  | none => return (fresh.discover disk cache root).1

/-- Saves the state of a workspace below its root. -/
def persist (workspace : Workspace) (disk : Disk) (root : Path) : Attempt Failure :=
  let path := State.file root
  (workspace.state.save disk path).mapFault
    (·.within s!"failed to save workspace state to {path}")

end Workspace

end ElmAtlas
