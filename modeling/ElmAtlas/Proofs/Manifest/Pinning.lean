import ElmAtlas.Proofs.Manifest.Lock
import ElmAtlas.Proofs.PackageCache

/-!
# Pinned packages

A package declares constraints, and each declared name gets one version.  A legacy
package takes the version from its lock where the lock has the name, whatever the
constraint says.  Every other name gets a version that satisfies its constraint and that
no installed version which satisfies it exceeds.  One name without a version, or one name
that is not valid, leaves the package without a project.
-/

namespace ElmAtlas

namespace Manifest

/-- A package manifest that declares constraints, and constraints for its tests.  Legacy
manifests declare none for tests. -/
inductive DeclaresPackage (content : ByteArray) :
    Schema → NameMap Constraint → NameMap Constraint → Prop where
  | current {record : PackageRecord}
      (decoded : decodeAs currentRecord content = .ok (.package record)) :
      DeclaresPackage content .current record.dependencies record.testDependencies
  | legacy {record : LegacyRecord} (decoded : decodeAs legacyRecord content = .ok record)
      (exposes : record.exposedModules ≠ []) :
      DeclaresPackage content .legacy record.dependencies NameMap.empty

/-- The lock of a directory has a version for the name.  Current manifests have no lock. -/
def IsLocked (disk : Disk) (directory : Path) : Schema → String → Version → Prop
  | .current, _, _ => False
  | .legacy, name, version =>
      ∃ locked, HasLock disk directory locked ∧ locked.get? name = some version

/-- The companion file of a manifest is missing or can be read. -/
def HasUsableCompanion (disk : Disk) (directory : Path) : Schema → Prop
  | .current => HasUsableSidecar disk directory
  | .legacy => HasUsableLock disk directory

/-- Legacy packages have to name source directories and a repository. -/
def IsLocated (content : ByteArray) : Schema → Prop
  | .current => True
  | .legacy => ∀ record, decodeAs legacyRecord content = .ok record →
      record.sourceDirectories ≠ [] ∧ ∃ name, packageNameOf? record.repository = some name

section Groups

variable (disk : Disk) (cache : PackageCache) (isLocked : String → Version → Prop)
  (declared : NameMap Constraint)

/-- Dependencies that are the declared names with their versions. -/
structure Pins (dependencies : Dependencies) : Prop where
  names : dependencies.direct.map Dependency.name = declared.names
  ascending : (dependencies.direct.map Dependency.name).Pairwise (· < ·)
  indirect : dependencies.indirect = []
  locked : ∀ dependency ∈ dependencies.direct, ∀ version,
    isLocked dependency.name version → dependency.version = version
  resolved : ∀ dependency ∈ dependencies.direct,
    (∀ version, ¬isLocked dependency.name version) →
    ∃ constraint, declared.get? dependency.name = some constraint ∧
      constraint.satisfies dependency.version = true ∧
      ∀ version, cache.Has disk dependency.name version →
        constraint.satisfies version = true → version ≤ dependency.version

/-- A declared name that is not valid or that has no version. -/
def HasUnpinnable : Prop :=
  ∃ name constraint, declared.get? name = some constraint ∧
    (PackageName.isValid name = false ∨
      (∀ version, ¬isLocked name version) ∧ cache.resolve? disk name constraint = none)

end Groups

section Resolving

variable {disk : Disk} {cache : PackageCache} {isLocked : String → Version → Prop}
  {declared : NameMap Constraint} {locked : Option (NameMap Version)}
  {dependencies : Dependencies}

/-- What a constraint resolves to is not below any installed version that satisfies it. -/
private theorem le_of_resolve? {name : String} {constraint : Constraint} {found version : Version}
    (resolved : cache.resolve? disk name constraint = some found)
    (has : cache.Has disk name version) (satisfied : constraint.satisfies version = true) :
    version ≤ found := by
  obtain ⟨greatest, same, best⟩ :=
    PackageCache.isGreatest_of_choices ⟨version, has, satisfied⟩
  rw [resolved] at same
  obtain rfl := Option.some.inj same
  exact best.2 ⟨has, satisfied⟩

variable (locks : ∀ name version, isLocked name version ↔
  locked.bind (·.get? name) = some version)
include locks

theorem pin?_of_isLocked {name : String} {version : Version} (known : isLocked name version)
    (constraint : Constraint) : pin? disk cache locked name constraint = some version := by
  rw [pin?, (locks name version).1 known, Option.some_or]

theorem pin?_of_not_isLocked {name : String} (free : ∀ version, ¬isLocked name version)
    (constraint : Constraint) :
    pin? disk cache locked name constraint = cache.resolve? disk name constraint := by
  have unlocked : locked.bind (·.get? name) = none := by
    rw [Option.eq_none_iff_forall_ne_some]
    intro version known
    exact free version ((locks name version).2 known)
  rw [pin?, unlocked, Option.none_or]

theorem pins_of_resolveConstraints
    (resolved : resolveConstraints disk cache declared locked = .ok dependencies) :
    Pins disk cache isLocked declared dependencies := by
  obtain ⟨orderly, indirect⟩ := indirect_of_resolveConstraints resolved
  obtain ⟨pinned, success, built⟩ := bind_eq_ok.1 resolved
  have names : pinned.map Prod.fst = declared.names := fst_of_pinConstraints success
  have ascending : pinned.Pairwise fun first second => first.1 < second.1 := by
    rw [← List.pairwise_map, names]
    exact declared.pairwise_names
  obtain ⟨_, _, rfl⟩ := Dependencies.ofMaps_eq_ok.1 (pinnedDependencies_eq_ok.1 built)
  -- The names are in order already, so the map lists the pins as they are.
  rw [NameMap.ofList_eq ascending] at orderly ⊢
  have pins {dependency : Dependency}
      (member : dependency ∈ Dependencies.listed ⟨pinned, ascending⟩) :
      ∃ constraint, declared.get? dependency.name = some constraint ∧
        pin? disk cache locked dependency.name constraint = some dependency.version := by
    obtain ⟨constraint, listed, found⟩ :=
      pin?_of_pinConstraints success _ (mem_listed.1 member)
    exact ⟨constraint, NameMap.get?_eq_some.2 listed, found⟩
  refine {
    names := ?_
    ascending := orderly.directAscending
    indirect := indirect
    locked := ?_
    resolved := ?_ }
  · rw [Dependencies.map_name_listed]
    exact names
  · intro dependency member version known
    obtain ⟨constraint, _, found⟩ := pins member
    rw [pin?_of_isLocked locks known] at found
    exact (Option.some.inj found).symm
  · intro dependency member free
    obtain ⟨constraint, declares, found⟩ := pins member
    rw [pin?_of_not_isLocked locks free] at found
    refine ⟨constraint, declares, PackageCache.satisfies_of_resolve? found, ?_⟩
    intro version has satisfied
    exact le_of_resolve? found has satisfied

/-- Constraints are resolved if every declared name can be pinned. -/
theorem exists_resolved_iff :
    (∃ dependencies, resolveConstraints disk cache declared locked = .ok dependencies) ↔
      ¬HasUnpinnable disk cache isLocked declared := by
  have pinnable (name : String) (constraint : Constraint) :
      (∃ version, pin? disk cache locked name constraint = some version) ↔
        ¬((∀ version, ¬isLocked name version) ∧
          cache.resolve? disk name constraint = none) := by
    by_cases free : ∀ version, ¬isLocked name version
    · rw [pin?_of_not_isLocked locks free, ← Option.ne_none_iff_exists']
      simp [free]
    · obtain ⟨version, known⟩ := not_forall_not.1 free
      rw [pin?_of_isLocked locks known]
      simp [free]
  rw [exists_resolveConstraints_iff, HasUnpinnable]
  simp only [pinnable, NameMap.get?_eq_some, not_exists, not_and, Prod.forall, not_or,
    Bool.not_eq_false]

end Resolving

section Packages

variable {disk : Disk} {cache : PackageCache} {schema : Schema} {content : ByteArray}
  {path : Path} {declared declaredForTests : NameMap Constraint} {project : Project}

/-- The versions with which a package of a schema is pinned first. -/
def ReadsLock (disk : Disk) (directory : Path) :
    Schema → Option (NameMap Version) → Prop
  | .current, locked => locked = none
  | .legacy, locked => loadLock disk directory = .ok locked

theorem isLocked_iff {directory : Path} {locked : Option (NameMap Version)}
    (reads : ReadsLock disk directory schema locked) (name : String) (version : Version) :
    IsLocked disk directory schema name version ↔
      locked.bind (·.get? name) = some version := by
  cases schema with
  | current =>
      obtain rfl : locked = none := reads
      simp [IsLocked]
  | legacy =>
      have loaded : loadLock disk directory = .ok locked := reads
      simp only [IsLocked, ← loadLock_eq_some, loaded, Except.ok.injEq]
      rw [Option.bind_eq_some_iff]

private theorem exists_readsLock (usable : HasUsableCompanion disk path.directory schema) :
    ∃ locked, ReadsLock disk path.directory schema locked := by
  cases schema with
  | current => exact ⟨none, rfl⟩
  | legacy => exact exists_loadLock_iff.2 usable

/-- The dependencies of a package are resolved from what it declares, with the lock of its
directory. -/
theorem resolved_of_parseAs (declares : DeclaresPackage content schema declared declaredForTests)
    (parsed : parseAs schema disk cache content path = .ok project) :
    ∃ locked, ReadsLock disk path.directory schema locked ∧
      resolveConstraints disk cache declared locked = .ok project.dependencies ∧
      resolveConstraints disk cache declaredForTests none = .ok project.testDependencies := by
  cases declares with
  | current decoded =>
      simp only [parseAs, parseCurrent, bind_eq_ok, objectTo_eq_ok, decoded, Except.ok.injEq,
        exists_eq_left', packageOf] at parsed
      obtain ⟨tests, _, dependencies, resolved, testDependencies, testResolved, built⟩ := parsed
      obtain rfl := Except.ok.inj built
      exact ⟨none, rfl, resolved, testResolved⟩
  | legacy decoded exposes =>
      simp only [parseAs, parseLegacy, bind_eq_ok, objectTo_eq_ok, decoded, Except.ok.injEq,
        exists_eq_left', legacyOf_eq_ok_of_package exposes] at parsed
      obtain ⟨directories, _, locked, loaded, name, dependencies, _, resolved, rfl⟩ := parsed
      exact ⟨locked, loaded, resolved, rfl⟩

private theorem exists_parseAs_of_resolved
    (declares : DeclaresPackage content schema declared declaredForTests)
    (usable : HasUsableCompanion disk path.directory schema) (located : IsLocated content schema)
    {locked : Option (NameMap Version)} (reads : ReadsLock disk path.directory schema locked)
    {dependencies testDependencies : Dependencies}
    (resolved : resolveConstraints disk cache declared locked = .ok dependencies)
    (testResolved : resolveConstraints disk cache declaredForTests none = .ok testDependencies) :
    ∃ project, parseAs schema disk cache content path = .ok project := by
  cases declares with
  | current decoded =>
      obtain ⟨tests, loaded⟩ := exists_loadSidecar_iff.2 usable
      obtain rfl : locked = none := reads
      simp only [parseAs, parseCurrent, bind_eq_ok, objectTo_eq_ok, decoded, Except.ok.injEq,
        exists_eq_left', packageOf]
      exact ⟨_, tests, loaded, dependencies, resolved, testDependencies, testResolved, rfl⟩
  | legacy decoded exposes =>
      obtain ⟨sources, name, named⟩ := located _ decoded
      have listed := sourceDirectories_eq_ok.2 ⟨sources, rfl⟩
      simp only [parseAs, parseLegacy, bind_eq_ok, objectTo_eq_ok, decoded, Except.ok.injEq,
        exists_eq_left', legacyOf_eq_ok_of_package exposes]
      exact ⟨_, _, listed, locked, reads, name, dependencies, named, resolved, rfl⟩

theorem objectTo_cases {α : Type} (path : Path) (outcome : Except Objection α) :
    (∃ value, objectTo path outcome = .ok value) ∨
      ∃ objection, objectTo path outcome = .error (.invalid path objection) := by
  cases outcome with
  | ok value => exact .inl ⟨value, rfl⟩
  | error objection => exact .inr ⟨objection, rfl⟩

/-- Where the companion file is no obstacle, a package that gives no project is found
invalid. -/
private theorem parseAs_cases_of_usable
    (declares : DeclaresPackage content schema declared declaredForTests)
    (usable : HasUsableCompanion disk path.directory schema) :
    (∃ project, parseAs schema disk cache content path = .ok project) ∨
      ∃ objection, parseAs schema disk cache content path = .error (.invalid path objection) := by
  cases declares with
  | current decoded =>
      obtain ⟨tests, loaded⟩ := exists_loadSidecar_iff.2 usable
      rw [parseAs, parseCurrent, decoded, loaded]
      exact objectTo_cases path _
  | @legacy record decoded exposes =>
      obtain ⟨locked, loaded⟩ := exists_loadLock_iff.2 usable
      have opened : parseAs .legacy disk cache content path =
          (objectTo path (sourceDirectories record.sourceDirectories) >>= fun directories =>
            objectTo path (legacyOf disk cache path directories locked record)) := by
        rw [parseAs, parseLegacy, decoded, loaded]
        rfl
      rw [opened]
      cases sourceDirectories record.sourceDirectories with
      | error objection => exact .inr ⟨objection, rfl⟩
      | ok directories => exact objectTo_cases path _

end Packages

/-- The dependencies of a package are its declared names, each with one version: the one
of the lock where a legacy package has one, and else one that satisfies the constraint and
is not below any installed version that does.  A declared name that is not valid or that
has no version leaves no project, and the manifest is then found invalid unless its
companion file cannot be used.  Nothing else stands in the way of a package, except that a
legacy one has to name its source directories and its repository. -/
theorem package_pins_declared {content : ByteArray} {schema : Schema}
    {declared declaredForTests : NameMap Constraint}
    (declares : DeclaresPackage content schema declared declaredForTests)
    (disk : Disk) (cache : PackageCache) (path : Path) :
    (∀ project, parseAs schema disk cache content path = .ok project →
      Pins disk cache (IsLocked disk path.directory schema) declared project.dependencies ∧
      Pins disk cache (fun _ _ => False) declaredForTests project.testDependencies) ∧
    (HasUnpinnable disk cache (IsLocked disk path.directory schema) declared ∨
        HasUnpinnable disk cache (fun _ _ => False) declaredForTests →
      (∀ project, parseAs schema disk cache content path ≠ .ok project) ∧
      (HasUsableCompanion disk path.directory schema →
        ∃ objection, parseAs schema disk cache content path =
          .error (.invalid path objection))) ∧
    (¬HasUnpinnable disk cache (IsLocked disk path.directory schema) declared →
      ¬HasUnpinnable disk cache (fun _ _ => False) declaredForTests →
      HasUsableCompanion disk path.directory schema → IsLocated content schema →
      ∃ project, parseAs schema disk cache content path = .ok project) := by
  have unlocked (name : String) (version : Version) :
      False ↔ (none : Option (NameMap Version)).bind (·.get? name) = some version := by
    simp
  have fails (unpinnable : HasUnpinnable disk cache (IsLocked disk path.directory schema) declared ∨
        HasUnpinnable disk cache (fun _ _ => False) declaredForTests) (project : Project) :
      parseAs schema disk cache content path ≠ .ok project := by
    intro parsed
    obtain ⟨locked, reads, resolved, testResolved⟩ := resolved_of_parseAs declares parsed
    rcases unpinnable with unpinnable | unpinnable
    · exact (exists_resolved_iff (isLocked_iff reads)).1 ⟨_, resolved⟩ unpinnable
    · exact (exists_resolved_iff unlocked).1 ⟨_, testResolved⟩ unpinnable
  refine ⟨?_, ?_, ?_⟩
  · intro project parsed
    obtain ⟨locked, reads, resolved, testResolved⟩ := resolved_of_parseAs declares parsed
    exact ⟨pins_of_resolveConstraints (isLocked_iff reads) resolved,
      pins_of_resolveConstraints unlocked testResolved⟩
  · intro unpinnable
    refine ⟨fails unpinnable, ?_⟩
    intro usable
    rcases parseAs_cases_of_usable declares usable with ⟨project, parsed⟩ | invalid
    · exact absurd parsed (fails unpinnable project)
    · exact invalid
  · intro pinnable testPinnable usable located
    obtain ⟨locked, reads⟩ := exists_readsLock usable
    obtain ⟨dependencies, resolved⟩ := (exists_resolved_iff (isLocked_iff reads)).2 pinnable
    obtain ⟨testDependencies, testResolved⟩ := (exists_resolved_iff unlocked).2 testPinnable
    exact exists_parseAs_of_resolved declares usable located reads resolved testResolved

/-- A home with installed packages beside a project directory that may have a lock. -/
def pinningDisk (lock : Option String) : Disk :=
  let below := lock.toList.map fun content =>
    ("exact-dependencies.json", .file content.toUTF8 false)
  ⟨.directory [
    ("h", .directory [("0.19.1", PackageCache.shelves.shelf PackageCache.mixedShelf)]),
    ("p", .directory [("elm-stuff", .directory below)])], ⟨"/"⟩⟩

def pinningLock : String :=
  "\x7b\"elm/html\": \"9.0.0\"\x7d"

/-- A package that asks for a version between two versions in succession. -/
def pinnedPackage : ByteArray :=
  ("\x7b\"version\": \"1.0.0\", \"summary\": \"\", \"repository\": \"/a/b.git\", " ++
    "\"license\": \"\", \"source-directories\": [\".\"], \"exposed-modules\": [\"A\"], " ++
    "\"dependencies\": \x7b\"elm/html\": \"1.0.0 < v < 1.0.1\", " ++
    "\"elm/core\": \"1.0.0 <= v < 2.0.0\"\x7d, " ++
    "\"elm-version\": \"0.18.0 <= v < 0.19.0\"\x7d").toUTF8

/-- With a lock the package has a version for each name, one of the lock and an installed
one.  Without the lock it is invalid. -/
theorem package_pins_declared_pinned :
    ∃ declared, DeclaresPackage pinnedPackage .legacy declared NameMap.empty ∧
      (∃ project, parseAs .legacy (pinningDisk (some pinningLock)) PackageCache.shelvesCache
          pinnedPackage ⟨"/p/elm-package.json"⟩ = .ok project ∧
        project.dependencies = ⟨[⟨"elm/core", ⟨1, 0, 9⟩⟩, ⟨"elm/html", ⟨9, 0, 0⟩⟩], []⟩ ∧
        Pins (pinningDisk (some pinningLock)) PackageCache.shelvesCache
          (IsLocked (pinningDisk (some pinningLock)) ⟨"/p"⟩ .legacy) declared
          project.dependencies) ∧
      ∃ objection, parseAs .legacy (pinningDisk none) PackageCache.shelvesCache pinnedPackage
        ⟨"/p/elm-package.json"⟩ = .error (.invalid ⟨"/p/elm-package.json"⟩ objection) := by
  have facts : (∃ record ∈ (decodeAs legacyRecord pinnedPackage).toOption,
        record.exposedModules ≠ [] ∧ record.dependencies.get? "elm/html" =
          some ⟨⟨1, 0, 0⟩, .below, .below, ⟨1, 0, 1⟩⟩) ∧
      ∃ project ∈ (parseAs .legacy (pinningDisk (some pinningLock)) PackageCache.shelvesCache
          pinnedPackage ⟨"/p/elm-package.json"⟩).toOption,
        project.dependencies =
          ⟨[⟨"elm/core", ⟨1, 0, 9⟩⟩, ⟨"elm/html", ⟨9, 0, 0⟩⟩], []⟩ := by
    decide +kernel
  have refused : PackageCache.shelvesCache.resolve? (pinningDisk none) "elm/html"
        ⟨⟨1, 0, 0⟩, .below, .below, ⟨1, 0, 1⟩⟩ = none ∧
      (pinningDisk none).read (Path.child ⟨"/p"⟩ lockFile) = .error .notFound := by
    decide +kernel
  have place : Path.directory ⟨"/p/elm-package.json"⟩ = ⟨"/p"⟩ := by decide +kernel
  obtain ⟨⟨record, decodes, exposes, constrained⟩, project, parses, pinned⟩ := facts
  obtain ⟨unresolved, missing⟩ := refused
  have declares := DeclaresPackage.legacy (toOption_eq_some.1 decodes) exposes
  have parsed := toOption_eq_some.1 parses
  have locked := package_pins_declared declares (pinningDisk (some pinningLock))
    PackageCache.shelvesCache ⟨"/p/elm-package.json"⟩
  have unlocked := package_pins_declared declares (pinningDisk none)
    PackageCache.shelvesCache ⟨"/p/elm-package.json"⟩
  rw [place] at locked unlocked
  have free (version : Version) :
      ¬IsLocked (pinningDisk none) ⟨"/p"⟩ .legacy "elm/html" version := by
    intro known
    obtain ⟨_, ⟨content, found, _⟩, _⟩ := known
    rw [missing] at found
    cases found
  have unpinnable : HasUnpinnable (pinningDisk none) PackageCache.shelvesCache
      (IsLocked (pinningDisk none) ⟨"/p"⟩ .legacy) record.dependencies :=
    ⟨"elm/html", _, constrained, .inr ⟨free, unresolved⟩⟩
  exact ⟨_, declares, ⟨project, parsed, pinned, (locked.1 project parsed).1⟩,
    (unlocked.2.1 (.inl unpinnable)).2 (.inl missing)⟩

end Manifest

end ElmAtlas
