import ElmAtlas.Manifest.Shape
import ElmAtlas.PackageCache
import ElmAtlas.Project

/-!
# From manifests to projects

A manifest becomes a project once its dependencies are pinned and its
directories are in normal form.  A current manifest may have a sidecar beside
it; a legacy manifest may have a lock file, and an application needs one.
-/

namespace ElmAtlas

namespace Manifest

/-- The lock file of a legacy project, below the project directory. -/
def lockFile : String :=
  "elm-stuff/exact-dependencies.json"

/-- Why a readable manifest describes no project. -/
inductive Objection where
  | unknownFileName
  | document (mismatch : Json.Mismatch)
  | noSourceDirectories
  | dependencies (fault : DependencyFault)
  | noVersion (name : String) (constraint : Constraint)
  | lockRequired
  | notLocked (name : String)
  | noPackageName (repository : String)
  deriving DecidableEq, Repr

namespace Objection

def message : Objection → String
  | unknownFileName =>
      s!"expected {Schema.fileName .current} or {Schema.fileName .legacy}"
  | document mismatch => mismatch.message
  | noSourceDirectories => "`source-directories` must not be empty"
  | dependencies fault => fault.message
  | noVersion name constraint => s!"`{name}` constraint `{constraint}` admits no version"
  | lockRequired => s!"{lockFile} is required to resolve application dependencies"
  | notLocked name => s!"`{name}` is missing from {lockFile}"
  | noPackageName repository => s!"cannot derive a package name from `{repository}`"

end Objection

inductive Fault where
  | invalid (path : Path) (objection : Objection)
  | sidecar (directory : Path) (fault : Sidecar.Fault)
  | unreadable (path : Path) (fault : DiskFault)
  deriving DecidableEq, Repr

namespace Fault

def message : Fault → String
  | invalid path objection => s!"invalid manifest {path}: {objection.message}"
  | sidecar directory _ => s!"invalid {Sidecar.fileName} in {directory}"
  | unreadable path _ => s!"failed to read {path}"

def causes : Fault → List String
  | invalid _ _ => []
  | sidecar _ fault => fault.causes
  | unreadable _ fault => [fault.message]

end Fault

/-- The objections of a step, said of a manifest. -/
def objectTo {α : Type} (path : Path) (outcome : Except Objection α) : Except Fault α :=
  match outcome with
  | .ok value => .ok value
  | .error objection => .error (.invalid path objection)

def decodeAs {α : Type} (decode : Json.Decoder α) (content : ByteArray) :
    Except Objection α :=
  match Json.Decode.bytes decode content with
  | .ok value => .ok value
  | .error mismatch => .error (.document mismatch)

/-- Keeps the first of each directory. -/
def distinctPaths (kept : List Path) : List Path → List Path
  | [] => kept.reverse
  | path :: paths =>
      if kept.any (·.sameAs path) then distinctPaths kept paths
      else distinctPaths (path :: kept) paths

/-- Source directories in normal form, each once; there must be one. -/
def sourceDirectories (given : List String) : Except Objection (List Path) :=
  if given.isEmpty then .error .noSourceDirectories
  else .ok (distinctPaths [] (given.map fun text => Path.normalize ⟨text⟩))

def pinnedDependencies (direct indirect : NameMap Version) :
    Except Objection Dependencies :=
  match Dependencies.ofMaps direct indirect with
  | .ok dependencies => .ok dependencies
  | .error fault => .error (.dependencies fault)

/-- Pins constraints: a locked version counts first, then the package cache. -/
def pinConstraints (disk : Disk) (cache : PackageCache) (locked : Option (NameMap Version)) :
    List (String × Constraint) → Except Objection (List (String × Version))
  | [] => .ok []
  | (name, constraint) :: rest =>
      let pinned := (locked.bind (·.get? name)).or (cache.resolve? disk name constraint)
      match pinned with
      | none => .error (.noVersion name constraint)
      | some version => do
          return (name, version) :: (← pinConstraints disk cache locked rest)

/-- The dependencies of a package are all direct. -/
def resolveConstraints (disk : Disk) (cache : PackageCache)
    (constraints : NameMap Constraint) (locked : Option (NameMap Version)) :
    Except Objection Dependencies := do
  let pinned ← pinConstraints disk cache locked constraints.entries
  pinnedDependencies (NameMap.ofList pinned) NameMap.empty

/-- Reads a companion file; one that is missing is no fault. -/
def companion (disk : Disk) (path : Path) : Except Fault (Option ByteArray) :=
  match disk.read path with
  | .ok content => .ok (some content)
  | .error .notFound => .ok none
  | .error fault => .error (.unreadable path fault)

/-- The tests directory that a sidecar asks for. -/
def loadSidecar (disk : Disk) (directory : Path) : Except Fault (Option Path) := do
  match ← companion disk (directory.child Sidecar.fileName) with
  | none => return none
  | some content =>
      match Sidecar.parse content with
      | .ok tests => return some tests
      | .error fault => .error (.sidecar directory fault)

/-- The versions that a lock file pins. -/
def loadLock (disk : Disk) (directory : Path) : Except Fault (Option (NameMap Version)) := do
  let path := directory.child lockFile
  match ← companion disk path with
  | none => return none
  | some content => some <$> objectTo path (decodeAs lockedVersions content)

def applicationOf (path : Path) (tests : Option Path) (record : ApplicationRecord) :
    Except Objection Project := do
  let kind := ProjectKind.application record.elmVersion
  let directories ← sourceDirectories record.sourceDirectories
  let dependencies ←
    pinnedDependencies record.dependencies.direct record.dependencies.indirect
  let testDependencies ←
    pinnedDependencies record.testDependencies.direct record.testDependencies.indirect
  return {
    manifestPath := path
    schema := .current
    kind := kind
    sourceDirectories := directories
    dependencies := dependencies
    testDependencies := testDependencies
    testsRelative := Project.testsDirectoryOf kind tests }

/-- Packages keep their modules in `src`. -/
def packageOf (disk : Disk) (cache : PackageCache) (path : Path) (tests : Option Path)
    (record : PackageRecord) : Except Objection Project := do
  let kind := ProjectKind.package record.name record.version record.elmVersion
    record.exposedModules
  let dependencies ← resolveConstraints disk cache record.dependencies none
  let testDependencies ← resolveConstraints disk cache record.testDependencies none
  return {
    manifestPath := path
    schema := .current
    kind := kind
    sourceDirectories := [⟨"src"⟩]
    dependencies := dependencies
    testDependencies := testDependencies
    testsRelative := Project.testsDirectoryOf kind tests }

def parseCurrent (disk : Disk) (cache : PackageCache) (content : ByteArray) (path : Path) :
    Except Fault Project := do
  let record ← objectTo path (decodeAs currentRecord content)
  let tests ← loadSidecar disk path.directory
  match record with
  | .application record => objectTo path (applicationOf path tests record)
  | .package record => objectTo path (packageOf disk cache path tests record)

/-- Drops `.git` from the end as often as it stands there; the characters run
from the last to the first. -/
def dropGitSuffix : List Char → List Char
  | 't' :: 'i' :: 'g' :: '.' :: rest => dropGitSuffix rest
  | characters => characters

/-- The last two parts of the address of a repository. -/
def packageNameOf? (repository : String) : Option String :=
  let trimmed :=
    (dropGitSuffix (repository.toList.reverse.dropWhile (· == '/'))).reverse
  match (Text.split (· == '/') trimmed).reverse with
  | project :: author :: _ =>
      if project.isEmpty || author.isEmpty || author.contains ':' then none
      else some (String.ofList (author ++ ['/'] ++ project))
  | _ => none

/-- Looks up the declared names in the lock. -/
def lockedDirect (locked : NameMap Version) :
    List String → Except Objection (List (String × Version))
  | [] => .ok []
  | name :: names =>
      match locked.get? name with
      | none => .error (.notLocked name)
      | some version => do return (name, version) :: (← lockedDirect locked names)

/-- A legacy application takes all its versions from the lock: the declared
names are direct, all others indirect. -/
def splitLock (declared : NameMap Constraint) (locked : NameMap Version) :
    Except Objection Dependencies := do
  let direct ← lockedDirect locked declared.names
  pinnedDependencies (NameMap.ofList direct)
    (locked.filterNames fun name => !declared.contains name)

/-- A legacy manifest without exposed modules is an application. -/
def legacyOf (disk : Disk) (cache : PackageCache) (path : Path) (directories : List Path)
    (locked : Option (NameMap Version)) (record : LegacyRecord) :
    Except Objection Project := do
  let project (kind : ProjectKind) (dependencies : Dependencies) : Project := {
    manifestPath := path
    schema := .legacy
    kind := kind
    sourceDirectories := directories
    dependencies := dependencies
    testDependencies := Dependencies.empty
    testsRelative := Sidecar.defaultTestDirectory }
  if record.exposedModules.isEmpty then
    match locked with
    | none => .error .lockRequired
    | some locked =>
        return project (.application record.elmVersion.low)
          (← splitLock record.dependencies locked)
  else
    match packageNameOf? record.repository with
    | none => .error (.noPackageName record.repository)
    | some name =>
        let dependencies ← resolveConstraints disk cache record.dependencies locked
        return project
          (.package name record.version record.elmVersion record.exposedModules) dependencies

def parseLegacy (disk : Disk) (cache : PackageCache) (content : ByteArray) (path : Path) :
    Except Fault Project := do
  let record ← objectTo path (decodeAs legacyRecord content)
  let directories ← objectTo path (sourceDirectories record.sourceDirectories)
  let locked ← loadLock disk path.directory
  objectTo path (legacyOf disk cache path directories locked record)

def parseAs (schema : Schema) (disk : Disk) (cache : PackageCache) (content : ByteArray)
    (path : Path) : Except Fault Project :=
  match schema with
  | .current => parseCurrent disk cache content path
  | .legacy => parseLegacy disk cache content path

/-- Reads a manifest in the format that its file name stands for. -/
def parse (disk : Disk) (cache : PackageCache) (content : ByteArray) (path : Path) :
    Except Fault Project :=
  match Schema.ofPath? path with
  | none => .error (.invalid path .unknownFileName)
  | some schema => parseAs schema disk cache content path

def load (disk : Disk) (cache : PackageCache) (path : Path) : Except Fault Project :=
  match disk.read path with
  | .ok content => parse disk cache content path
  | .error fault => .error (.unreadable path fault)

end Manifest

end ElmAtlas
