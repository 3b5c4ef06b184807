import ElmAtlas.Constraint
import ElmAtlas.Dependency
import ElmAtlas.Disk

/-!
# Installed packages

The compiler keeps the packages it has downloaded in one directory per version
below its home directory.  Package manifests name constraints only; a constraint
is pinned to the latest installed version that satisfies it.
-/

namespace ElmAtlas

structure PackageCache where
  home : Option Path

namespace PackageCache

/-- A cache in which nothing is installed. -/
def empty : PackageCache :=
  ⟨none⟩

/-- The compilers whose packages count. -/
def compilers : List String :=
  ["0.19.1", "0.19.0"]

/-- Where a compiler keeps the versions of a package. -/
def packageDirectory (home : Path) (author project compiler : String) : Path :=
  (((home.child compiler).child "packages").child author).child project

/-- The versions that the directories below a directory are named for. -/
def versionsIn (disk : Disk) (directory : Path) : List Version :=
  (disk.entries directory).filterMap fun (name, _) =>
    if disk.isDirectory (directory.child name) then Version.ofText? name else none

/-- All installed versions of a package, in ascending order. -/
def installed (cache : PackageCache) (disk : Disk) (name : String) : List Version :=
  match cache.home, PackageName.halves? name with
  | some home, some (author, project) =>
      Version.sortOnce (compilers.flatMap fun compiler =>
        versionsIn disk (packageDirectory home author project compiler))
  | _, _ => []

/-- The latest installed version that satisfies a constraint, or else the lowest
version that the constraint admits. -/
def resolve? (cache : PackageCache) (disk : Disk) (name : String)
    (constraint : Constraint) : Option Version :=
  match Version.latest? ((cache.installed disk name).filter constraint.satisfies) with
  | some version => some version
  | none => constraint.leastVersion?

end PackageCache

end ElmAtlas
