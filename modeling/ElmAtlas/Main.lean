import ElmAtlas.CommandLine.Run
import ElmAtlas.Machine.Texts
import ElmAtlas.Shell.Launch

/-!
# The program

The program takes a picture of the directories that a command line can reach,
runs the command line on the picture and writes the files that changed back.
-/

namespace ElmAtlas.Picture

def depthLimit : Nat := 64

/-- A file or directory as it is now.  Permissions cannot be read from here, so every file counts
as one that may be run. -/
def take : (depth : Nat) → String → IO Node
  | 0, _ => return .directory []
  | depth + 1, path => do
      let place := System.mkFilePath [path]
      if ← place.isDir then
        let entries ← place.readDir
        let nodes ← entries.toList.mapM fun entry => do
          return (entry.fileName, ← take depth entry.path.toString)
        return .directory nodes
      else
        let content ←
          try IO.FS.readBinFile place
          catch _ => pure ByteArray.empty
        return .file content true

end ElmAtlas.Picture

namespace ElmAtlas

/-- A disk as far as it was looked at: everything below the places in `seen`. -/
structure Picture where
  disk : Disk
  seen : List Path

namespace Picture

/-- Looks at one more place. -/
def add (picture : Picture) (path : Path) : IO Picture := do
  let place := picture.disk.absolute path
  let isNew := !picture.seen.any (place.isBelow ·)
  if isNew && (← (System.mkFilePath [place.text]).pathExists) then
    let node ← take depthLimit place.text
    let ready := picture.disk.makeDirectories place.directory
    match ready.fault with
    | none =>
        return ⟨{ ready.disk with top := node.put place.names ready.disk.top },
          place :: picture.seen⟩
    | some _ => return picture
  else
    return picture

def addAll (picture : Picture) (paths : List Path) : IO Picture :=
  paths.foldlM add picture

mutual

/-- Writes the files that are not as they were. -/
def store (path : String) (old : Option Node) : Node → IO Unit
  | .directory entries => do
      let place := System.mkFilePath [path]
      unless ← place.isDir do
        IO.FS.createDirAll place
      let before :=
        match old with
        | some (.directory found) => found
        | _ => []
      storeEntries path before entries
  | .file content _ => do
      let isSame :=
        match old with
        | some (.file found _) => found == content
        | _ => false
      unless isSame do
        IO.FS.writeBinFile path content

def storeEntries (path : String) (old : List (String × Node)) :
    List (String × Node) → IO Unit
  | [] => return ()
  | (name, node) :: entries => do
      store (path ++ "/" ++ name) (old.lookup name) node
      storeEntries path old entries

end

/-- The variables that the program looks at. -/
def environment : IO Environment := do
  let names := ["HOME", "PATH", "ELM_HOME", "ELM_WORKSPACE_ROOT"]
  let entries ← names.mapM fun name => do
    return (← IO.getEnv name).map (name, ·)
  return entries.filterMap id

/-- The places that every command may look at. -/
def commonPlaces (environment : Environment) : List Path :=
  let home := (CommandLine.Context.home? environment).map (·.child workspaceDirectory)
  home.toList ++ (CommandLine.Context.cacheOf environment).home.toList ++
    Tool.all.flatMap (fun tool =>
      Path.candidates (CommandLine.Context.home? environment) environment.searchPath
        tool.programName) ++
    Shell.Resident.shells

def requestPlaces : CommandLine.Request → List Path
  | .complete _ output => (output.map Path.directory).toList
  | .act root action =>
      let operand : Option Path :=
        match action with
        | .attach path | .detach path | .which path | .review path _ => some path
        | _ => none
      root.toList ++ operand.toList ++ (operand.map Path.directory).toList

def toolPlaces (settings : Settings) : List Path :=
  Tool.all.filterMap (Toolchain.ofSettings settings).path?

/-- The places that the saved state and the configuration of a root name. -/
def savedPlaces (environment : Environment) (disk : Disk) (root : Path) : List Path :=
  let config := CommandLine.Context.configOf environment disk root
  let saved :=
    match State.loadIfPresent disk (State.file root) with
    | .ok (some state) =>
        (state.paths.map fun path => Path.directory ⟨path⟩) ++ toolPlaces state.settings
    | _ => []
  saved ++ toolPlaces config.toSettings

/-- The disk as a command line sees it. -/
def ofArguments (environment : Environment) (arguments : List String) :
    IO Picture := do
  let cwd : Path := ⟨(← IO.currentDir).toString⟩
  let start ← add ⟨⟨.directory [], cwd⟩, []⟩ cwd
  match CommandLine.parse (environment.get? "ELM_WORKSPACE_ROOT") arguments with
  | .error _ => return start
  | .ok request =>
      let near ← start.addAll (requestPlaces request ++ commonPlaces environment)
      match request with
      | .complete _ _ => return near
      | .act root _ =>
          near.addAll (savedPlaces environment near.disk (near.disk.absolute (root.getD cwd)))

/-- Writes back what changed between two disks. -/
def storeChanges (old new : Disk) : IO Unit :=
  match old.top, new.top with
  | .directory before, .directory after => storeEntries "" before after
  | _, _ => return ()

end Picture

end ElmAtlas

open ElmAtlas in
def main (arguments : List String) : IO UInt32 := do
  let environment ← Picture.environment
  let picture ← Picture.ofArguments environment arguments
  let host : CommandLine.Host := {
    environment := environment
    invoke := Shell.invoke environment
    script := Machine.script
    complaint := fun _ => Machine.usage
    help := fun _ => Machine.usage }
  let outcome := CommandLine.run host picture.disk arguments
  Picture.storeChanges picture.disk outcome.disk
  try
    IO.print outcome.stdout
    IO.eprint outcome.stderr
    return UInt32.ofNat outcome.code
  catch _ =>
    return UInt32.ofNat CommandLine.Outcome.abortCode
