import ElmAtlas.NameMap
import ElmAtlas.Version

/-!
# Pinned dependencies

Every dependency of a project is pinned to one version.  A project has direct
and indirect dependencies, and no package is both.
-/

namespace ElmAtlas

namespace PackageName

/-- The author before the first `/` and the project behind it. -/
def halves? (name : String) : Option (String × String) :=
  (Text.splitOnce '/' name.toList).map fun (author, project) =>
    (String.ofList author, String.ofList project)

/-- A package name has the form `author/project` with two nonempty halves and
no further `/`. -/
def isValid (name : String) : Bool :=
  match Text.splitOnce '/' name.toList with
  | some (author, project) =>
      !author.isEmpty && !project.isEmpty && !project.contains '/'
  | none => false

end PackageName

structure Dependency where
  name : String
  version : Version
  deriving DecidableEq, Repr

namespace Dependency

def author (dependency : Dependency) : String :=
  match PackageName.halves? dependency.name with
  | some (author, _) => author
  | none => ""

/-- The half behind the `/`; a name without `/` is all project. -/
def project (dependency : Dependency) : String :=
  match PackageName.halves? dependency.name with
  | some (_, project) => project
  | none => dependency.name

def toText (dependency : Dependency) : String :=
  s!"{dependency.name} {dependency.version}"

end Dependency

/-- Why two maps are no dependencies of a project. -/
inductive DependencyFault where
  | invalidName (name : String)
  | listedTwice (name : String)
  deriving DecidableEq, Repr

namespace DependencyFault

def message : DependencyFault → String
  | invalidName name => s!"invalid package name `{name}`"
  | listedTwice name =>
      s!"package `{name}` is listed as both a direct and an indirect dependency"

end DependencyFault

/-- Direct and indirect dependencies, each sorted by name. -/
structure Dependencies where
  direct : List Dependency
  indirect : List Dependency
  deriving DecidableEq, Repr

namespace Dependencies

def empty : Dependencies :=
  ⟨[], []⟩

/-- Checks names in order: each must be valid and must not have occurred. -/
def checkNames : (seen : List String) → List String → Except DependencyFault Unit
  | _, [] => .ok ()
  | seen, name :: names =>
      if !PackageName.isValid name then .error (.invalidName name)
      else if seen.contains name then .error (.listedTwice name)
      else checkNames (name :: seen) names

def listed (map : NameMap Version) : List Dependency :=
  map.entries.map fun (name, version) => ⟨name, version⟩

def ofMaps (direct indirect : NameMap Version) : Except DependencyFault Dependencies := do
  checkNames [] (direct.names ++ indirect.names)
  return ⟨listed direct, listed indirect⟩

/-- Direct dependencies first. -/
def all (dependencies : Dependencies) : List Dependency :=
  dependencies.direct ++ dependencies.indirect

def get? (dependencies : Dependencies) (name : String) : Option Dependency :=
  dependencies.all.find? (·.name == name)

def size (dependencies : Dependencies) : Nat :=
  dependencies.direct.length + dependencies.indirect.length

def isEmpty (dependencies : Dependencies) : Bool :=
  dependencies.direct.isEmpty && dependencies.indirect.isEmpty

end Dependencies

end ElmAtlas
