import ElmAtlas.Constraint
import ElmAtlas.Dependency
import ElmAtlas.Sidecar
import ElmAtlas.Path.Normal

/-!
# Projects

A project is what a manifest describes.  It is identified by the path of its
manifest and never changes; reading the manifest again makes a new project.
-/

namespace ElmAtlas

inductive Schema where
  | current
  | legacy
  deriving DecidableEq, Repr

namespace Schema

def fileName : Schema → String
  | current => "elm.json"
  | legacy => "elm-package.json"

/-- The format that a file name stands for. -/
def ofPath? (path : Path) : Option Schema :=
  match path.fileName? with
  | some name =>
      if name == fileName current then some current
      else if name == fileName legacy then some legacy
      else none
  | none => none

end Schema

/-- An application is built with one compiler version, a package is published
for a range of them. -/
inductive ProjectKind where
  | application (elmVersion : Version)
  | package (name : String) (version : Version) (elmVersion : Constraint)
      (exposedModules : List String)
  deriving DecidableEq, Repr

namespace ProjectKind

def label : ProjectKind → String
  | application _ => "application"
  | package _ _ _ _ => "package"

def isApplication : ProjectKind → Bool
  | application _ => true
  | package _ _ _ _ => false

def exposedModules : ProjectKind → List String
  | application _ => []
  | package _ _ _ modules => modules

/-- The compiler requirement as a manifest writes it. -/
def elmVersionText : ProjectKind → String
  | application version => version.toText
  | package _ _ constraint _ => constraint.toText

end ProjectKind

structure Project where
  manifestPath : Path
  schema : Schema
  kind : ProjectKind
  sourceDirectories : List Path
  dependencies : Dependencies
  testDependencies : Dependencies
  testsRelative : Path
  deriving DecidableEq, Repr

namespace Project

/-- Only an application may move its tests directory. -/
def testsDirectoryOf (kind : ProjectKind) (override : Option Path) : Path :=
  match kind, override with
  | .application _, some directory => directory
  | _, _ => Sidecar.defaultTestDirectory

def directory (project : Project) : Path :=
  project.manifestPath.directory

def absoluteSourceDirectories (project : Project) : List Path :=
  project.sourceDirectories.map (·.absolutize project.directory)

def testsDirectory (project : Project) : Path :=
  project.testsRelative.absolutize project.directory

def hasCustomTests (project : Project) : Bool :=
  Sidecar.isCustom project.testsRelative

/-- A package goes by its published name, an application by the name of its
directory. -/
def presentableName (project : Project) : String :=
  match project.kind with
  | .package name _ _ _ => name
  | .application _ => project.directory.fileName?.getD project.directory.text

/-- How deep the project lies; of nested projects the deeper one is the more
specific. -/
def depth (project : Project) : Nat :=
  project.directory.depth

/-- Whether a file lies below a source directory or the tests directory. -/
def containsFile (project : Project) (file : Path) : Bool :=
  project.absoluteSourceDirectories.any (file.isBelow ·) ||
    file.isBelow project.testsDirectory

def toText (project : Project) : String :=
  s!"{project.presentableName} ({project.kind.label}, {project.manifestPath})"

end Project

end ElmAtlas
