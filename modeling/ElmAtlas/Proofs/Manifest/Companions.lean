import ElmAtlas.Proofs.Manifest.Identity
import Mathlib.Data.List.Basic

/-!
# What a manifest depends on

Besides its own bytes a manifest is read from one companion file, the sidecar of a
current and the lock of a legacy manifest, and from the installed packages.  Two
disks that agree on these give the same result, whatever else is on them.  A package
does not depend on what its sidecar says, and an application does not depend on the
installed packages.
-/

namespace ElmAtlas

namespace Manifest

/-- The file beside a manifest that is read with it. -/
def companionFile : Schema → String
  | .current => Sidecar.fileName
  | .legacy => lockFile

/-- A sidecar is missing or can be read. -/
def HasUsableSidecar (disk : Disk) (directory : Path) : Prop :=
  disk.read (directory.child Sidecar.fileName) = .error .notFound ∨
    ∃ content tests, disk.read (directory.child Sidecar.fileName) = .ok content ∧
      Sidecar.parse content = .ok tests

theorem exists_loadSidecar_iff {disk : Disk} {directory : Path} :
    (∃ tests, loadSidecar disk directory = .ok tests) ↔ HasUsableSidecar disk directory := by
  unfold loadSidecar companion HasUsableSidecar
  cases disk.read (directory.child Sidecar.fileName) with
  | ok content =>
      cases parsed : Sidecar.parse content <;>
        simp [bind, Except.bind, pure, Except.pure, parsed]
  | error fault => cases fault <;> simp [bind, Except.bind, pure, Except.pure]

/-- A manifest whose fields can be read and that describes an application. -/
def IsApplication (content : ByteArray) : Schema → Prop
  | .current => ∃ record, decodeAs currentRecord content = .ok (.application record)
  | .legacy => ∃ record, decodeAs legacyRecord content = .ok record ∧ record.exposedModules = []

/-- A manifest whose fields can be read and that describes a package. -/
def IsPackage (content : ByteArray) : Schema → Prop
  | .current => ∃ record, decodeAs currentRecord content = .ok (.package record)
  | .legacy => ∃ record, decodeAs legacyRecord content = .ok record ∧ record.exposedModules ≠ []

section TwoDisks

variable {left right : Disk} {leftCache rightCache : PackageCache}

theorem companion_congr {path : Path} (same : left.read path = right.read path) :
    companion left path = companion right path := by
  rw [companion, companion, same]

theorem loadSidecar_congr {directory : Path}
    (same : left.read (directory.child (companionFile .current)) =
      right.read (directory.child (companionFile .current))) :
    loadSidecar left directory = loadSidecar right directory := by
  rw [loadSidecar, loadSidecar]
  rw [show companion left (directory.child Sidecar.fileName) = _ from companion_congr same]

theorem loadLock_congr {directory : Path}
    (same : left.read (directory.child (companionFile .legacy)) =
      right.read (directory.child (companionFile .legacy))) :
    loadLock left directory = loadLock right directory := by
  rw [loadLock, loadLock]
  rw [show companion left (directory.child lockFile) = _ from companion_congr same]

/-- The same packages are installed in both caches. -/
def SameInstalled (left : Disk) (leftCache : PackageCache) (right : Disk)
    (rightCache : PackageCache) : Prop :=
  ∀ name, leftCache.installed left name = rightCache.installed right name

theorem resolve?_congr (same : SameInstalled left leftCache right rightCache) (name : String)
    (constraint : Constraint) :
    leftCache.resolve? left name constraint = rightCache.resolve? right name constraint := by
  rw [PackageCache.resolve?, PackageCache.resolve?, same name]

theorem pinConstraints_congr (same : SameInstalled left leftCache right rightCache)
    (locked : Option (NameMap Version)) (constraints : List (String × Constraint)) :
    pinConstraints left leftCache locked constraints =
      pinConstraints right rightCache locked constraints := by
  induction constraints with
  | nil => rfl
  | cons entry rest induction =>
      obtain ⟨name, constraint⟩ := entry
      simp only [pinConstraints, resolve?_congr same, induction]

theorem resolveConstraints_congr (same : SameInstalled left leftCache right rightCache)
    (constraints : NameMap Constraint) (locked : Option (NameMap Version)) :
    resolveConstraints left leftCache constraints locked =
      resolveConstraints right rightCache constraints locked := by
  rw [resolveConstraints, resolveConstraints, pinConstraints_congr same]

theorem packageOf_congr (same : SameInstalled left leftCache right rightCache) (path : Path)
    (leftTests rightTests : Option Path) (record : PackageRecord) :
    packageOf left leftCache path leftTests record =
      packageOf right rightCache path rightTests record := by
  simp only [packageOf, resolveConstraints_congr same, Project.testsDirectoryOf]

theorem legacyOf_congr (same : SameInstalled left leftCache right rightCache) (path : Path)
    (directories : List Path) (locked : Option (NameMap Version)) (record : LegacyRecord) :
    legacyOf left leftCache path directories locked record =
      legacyOf right rightCache path directories locked record := by
  simp only [legacyOf, resolveConstraints_congr same]

/-- A legacy application takes nothing from the installed packages. -/
private theorem legacyOf_of_nothing_exposed {record : LegacyRecord}
    (application : record.exposedModules = []) (path : Path) (directories : List Path)
    (locked : Option (NameMap Version)) :
    legacyOf left leftCache path directories locked record =
      legacyOf right rightCache path directories locked record := by
  simp only [legacyOf, application, List.isEmpty_nil, if_true]

variable {content : ByteArray} {path : Path}

theorem parseAs_congr (schema : Schema)
    (sameFile : left.read (path.directory.child (companionFile schema)) =
      right.read (path.directory.child (companionFile schema)))
    (sameInstalled : SameInstalled left leftCache right rightCache) :
    parseAs schema left leftCache content path =
      parseAs schema right rightCache content path := by
  cases schema with
  | current =>
      rw [parseAs, parseAs, parseCurrent, parseCurrent, loadSidecar_congr sameFile]
      refine bind_congr_ok fun record _ => bind_congr_ok fun tests _ => ?_
      cases record with
      | application record => rfl
      | package record =>
          exact congrArg (objectTo path) (packageOf_congr sameInstalled path tests tests record)
  | legacy =>
      rw [parseAs, parseAs, parseLegacy, parseLegacy, loadLock_congr sameFile]
      refine bind_congr_ok fun record _ => bind_congr_ok fun directories _ =>
        bind_congr_ok fun locked _ => ?_
      rw [legacyOf_congr sameInstalled]

/-- A package is the same under any two sidecars that can be read. -/
theorem parseCurrent_congr_of_package (notApplication : ¬IsApplication content .current)
    (leftUsable : HasUsableSidecar left path.directory)
    (rightUsable : HasUsableSidecar right path.directory)
    (sameInstalled : SameInstalled left leftCache right rightCache) :
    parseAs .current left leftCache content path =
      parseAs .current right rightCache content path := by
  obtain ⟨leftTests, leftLoaded⟩ := exists_loadSidecar_iff.2 leftUsable
  obtain ⟨rightTests, rightLoaded⟩ := exists_loadSidecar_iff.2 rightUsable
  rw [parseAs, parseAs, parseCurrent, parseCurrent, leftLoaded, rightLoaded]
  refine bind_congr_ok fun record decoded => ?_
  cases record with
  | application record => exact (notApplication ⟨record, objectTo_eq_ok.1 decoded⟩).elim
  | package record =>
      exact congrArg (objectTo path)
        (packageOf_congr sameInstalled path leftTests rightTests record)

/-- An application is the same under any two caches. -/
theorem parseAs_congr_of_application (schema : Schema) (notPackage : ¬IsPackage content schema)
    (sameFile : left.read (path.directory.child (companionFile schema)) =
      right.read (path.directory.child (companionFile schema))) :
    parseAs schema left leftCache content path =
      parseAs schema right rightCache content path := by
  cases schema with
  | current =>
      rw [parseAs, parseAs, parseCurrent, parseCurrent, loadSidecar_congr sameFile]
      refine bind_congr_ok fun record decoded => bind_congr_ok fun tests _ => ?_
      cases record with
      | application record => rfl
      | package record => exact (notPackage ⟨record, objectTo_eq_ok.1 decoded⟩).elim
  | legacy =>
      rw [parseAs, parseAs, parseLegacy, parseLegacy, loadLock_congr sameFile]
      refine bind_congr_ok fun record decoded => bind_congr_ok fun directories _ =>
        bind_congr_ok fun locked _ => ?_
      have application : record.exposedModules = [] := Decidable.byContradiction fun exposes =>
        notPackage ⟨record, objectTo_eq_ok.1 decoded, exposes⟩
      rw [legacyOf_of_nothing_exposed application]

end TwoDisks

/-- Let two disks and two caches be given.  Where they have the same lock and the same
installed packages, a legacy manifest gives the same result on both, whatever their
sidecars; where they have the same sidecar and the same installed packages, so does a
current manifest, whatever their locks.  One that is not an application gives the same
result under any two sidecars that are missing or can be read, and one that is not a
package gives the same result under any two caches. -/
theorem result_from_own_companions (content : ByteArray) (path : Path) (left right : Disk)
    (leftCache rightCache : PackageCache) :
    (left.read (path.directory.child lockFile) = right.read (path.directory.child lockFile) →
      SameInstalled left leftCache right rightCache →
      parseAs .legacy left leftCache content path =
        parseAs .legacy right rightCache content path) ∧
    (left.read (path.directory.child Sidecar.fileName) =
        right.read (path.directory.child Sidecar.fileName) →
      SameInstalled left leftCache right rightCache →
      parseAs .current left leftCache content path =
        parseAs .current right rightCache content path) ∧
    (¬IsApplication content .current →
      HasUsableSidecar left path.directory → HasUsableSidecar right path.directory →
      SameInstalled left leftCache right rightCache →
      parseAs .current left leftCache content path =
        parseAs .current right rightCache content path) ∧
    ∀ schema, ¬IsPackage content schema →
      left.read (path.directory.child (companionFile schema)) =
        right.read (path.directory.child (companionFile schema)) →
      parseAs schema left leftCache content path =
        parseAs schema right rightCache content path := by
  refine ⟨?_, ?_, ?_, ?_⟩
  · exact parseAs_congr .legacy
  · exact parseAs_congr .current
  · exact parseCurrent_congr_of_package
  · exact parseAs_congr_of_application

/-- A project directory with the given companion files. -/
def companionDisk (sidecar lock : Option String) : Disk :=
  let file (content : String) : Node := .file content.toUTF8 false
  let beside := sidecar.toList.map fun content => ("elm.intellij.json", file content)
  let below := lock.toList.map fun content => ("exact-dependencies.json", file content)
  ⟨.directory [("p", .directory (beside ++ [("elm-stuff", .directory below)]))], ⟨"/"⟩⟩

def legacyApplication : ByteArray :=
  ("\x7b\"version\": \"1.0.0\", \"summary\": \"\", \"repository\": \"\", \"license\": \"\", " ++
    "\"source-directories\": [\".\"], \"exposed-modules\": [], " ++
    "\"dependencies\": \x7b\"elm/core\": \"1.0.0 <= v < 2.0.0\"\x7d, " ++
    "\"elm-version\": \"0.18.0 <= v < 0.19.0\"\x7d").toUTF8

def currentPackage : ByteArray :=
  ("\x7b\"type\": \"package\", \"name\": \"a/b\", \"summary\": \"\", \"license\": \"\", " ++
    "\"version\": \"1.0.0\", \"exposed-modules\": [], \"dependencies\": \x7b\x7d, " ++
    "\"test-dependencies\": \x7b\x7d, \"elm-version\": \"0.19.0 <= v < 0.20.0\"\x7d").toUTF8

def exampleSidecar : String :=
  "\x7b\"test-directory\": \"spec\"\x7d"

def exampleLock : String :=
  "\x7b\"elm/core\": \"1.0.5\"\x7d"

def CurrentRecord.isPackage : CurrentRecord → Bool
  | .application _ => false
  | .package _ => true

/-- An application with a lock does not look at a broken sidecar or at a cache, and a
package does not look at a broken lock or at what its sidecar says. -/
theorem result_from_own_companions_twoDisks :
    (∃ project, parseAs .legacy (companionDisk (some "[") (some exampleLock)) ⟨some ⟨"/p"⟩⟩
        legacyApplication ⟨"/p/elm-package.json"⟩ = .ok project ∧
      parseAs .legacy (companionDisk none (some exampleLock)) .empty
        legacyApplication ⟨"/p/elm-package.json"⟩ = .ok project) ∧
    ∃ project, parseAs .current (companionDisk (some exampleSidecar) (some "[")) .empty
        currentPackage ⟨"/p/elm.json"⟩ = .ok project ∧
      parseAs .current (companionDisk none none) .empty
        currentPackage ⟨"/p/elm.json"⟩ = .ok project := by
  constructor
  · have facts : (∀ record ∈ (decodeAs legacyRecord legacyApplication).toOption,
          record.exposedModules = []) ∧
        (parseAs .legacy (companionDisk none (some exampleLock)) .empty
          legacyApplication ⟨"/p/elm-package.json"⟩).toOption.isSome = true := by
      decide +kernel
    obtain ⟨kind, success⟩ := facts
    obtain ⟨project, parsed⟩ := Option.isSome_iff_exists.1 success
    have notPackage : ¬IsPackage legacyApplication .legacy := by
      rintro ⟨record, decoded, exposes⟩
      exact exposes (kind record (toOption_eq_some.2 decoded))
    have same := (result_from_own_companions legacyApplication ⟨"/p/elm-package.json"⟩
      (companionDisk (some "[") (some exampleLock)) (companionDisk none (some exampleLock))
      ⟨some ⟨"/p"⟩⟩ .empty).2.2.2 .legacy notPackage (by decide +kernel)
    refine ⟨project, ?_, toOption_eq_some.1 parsed⟩
    rw [same]
    exact toOption_eq_some.1 parsed
  · have facts : (∀ record ∈ (decodeAs currentRecord currentPackage).toOption,
          record.isPackage = true) ∧
        (parseAs .current (companionDisk none none) .empty
          currentPackage ⟨"/p/elm.json"⟩).toOption.isSome = true := by
      decide +kernel
    obtain ⟨kind, success⟩ := facts
    obtain ⟨project, parsed⟩ := Option.isSome_iff_exists.1 success
    have notApplication : ¬IsApplication currentPackage .current := by
      rintro ⟨record, decoded⟩
      cases kind _ (toOption_eq_some.2 decoded)
    have same := (result_from_own_companions currentPackage ⟨"/p/elm.json"⟩
      (companionDisk (some exampleSidecar) (some "[")) (companionDisk none none)
      .empty .empty).2.2.1 notApplication
        (.inr ⟨exampleSidecar.toUTF8, ⟨"spec"⟩, by decide +kernel, by decide +kernel⟩)
        (.inl (by decide +kernel)) (fun _ => rfl)
    refine ⟨project, ?_, toOption_eq_some.1 parsed⟩
    rw [same]
    exact toOption_eq_some.1 parsed

end Manifest

end ElmAtlas
