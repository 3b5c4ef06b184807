import ElmAtlas.Proofs.Manifest.Companions
import ElmAtlas.Proofs.Manifest.Description
import Mathlib.Data.List.Forall2

/-!
# Applications and their locks

A lock maps names to versions.  A legacy application takes all its versions from the
lock of its directory and nothing else: the names that the manifest declares become its
direct dependencies, and the other names of the lock its indirect ones.  So the lock is
split in two, and neither the constraints of the manifest nor the installed packages
have a say.
-/

namespace ElmAtlas

namespace Json.Decode

variable {α : Type} {decode : Decoder α}

/-- The members of an object are decoded one by one, and each has to have a key. -/
theorem members_eq_ok {entries : List (Option String × Document)}
    {values : List (String × α)} :
    members decode entries = .ok values ↔
      List.Forall₂ (fun entry value => entry.1 = some value.1 ∧ decode entry.2 = .ok value.2)
        entries values := by
  induction entries generalizing values with
  | nil => simp [members, eq_comm]
  | cons entry entries induction =>
      obtain ⟨key, document⟩ := entry
      cases key with
      | none => simp [members, List.forall₂_cons_left_iff]
      | some name =>
          simp only [members, bind_eq_ok, List.forall₂_cons_left_iff, ← induction]
          constructor
          · intro decoded
            obtain ⟨first, firstDecoded, rest, restDecoded, built⟩ := decoded
            exact ⟨(name, first), rest, ⟨rfl, firstDecoded⟩, restDecoded,
              (Except.ok.inj built).symm⟩
          · intro decoded
            obtain ⟨⟨other, first⟩, rest, ⟨same, firstDecoded⟩, restDecoded, rfl⟩ := decoded
            obtain rfl := Option.some.inj same
            exact ⟨first, firstDecoded, rest, restDecoded, rfl⟩

end Json.Decode

namespace Manifest

open Json

/-- A file that holds an object whose members are names with the texts of versions, and
nothing else.  Of several versions of one name the last one counts. -/
def IsLock (content : ByteArray) (locked : NameMap Version) : Prop :=
  ∃ (members : List (Option String × Document)) (versions : List (String × Version)),
    Json.read content = ⟨.object members, false⟩ ∧
    List.Forall₂ (fun member version => ∃ text, member = (some version.1, .text (some text)) ∧
      Version.parse text = .ok version.2) members versions ∧
    locked = NameMap.ofList versions

/-- The lock of a project directory. -/
def HasLock (disk : Disk) (directory : Path) (locked : NameMap Version) : Prop :=
  ∃ content, disk.read (directory.child lockFile) = .ok content ∧ IsLock content locked

/-- A lock is missing or can be read. -/
def HasUsableLock (disk : Disk) (directory : Path) : Prop :=
  disk.read (directory.child lockFile) = .error .notFound ∨ ∃ locked, HasLock disk directory locked

theorem decodeAs_bytes_eq_ok {α : Type} {decode : Decoder α} {content : ByteArray} {value : α} :
    decodeAs decode content = .ok value ↔
      decode (Json.read content).document = .ok value ∧ (Json.read content).hasSurplus = false := by
  rw [decodeAs, Decode.bytes]
  cases decode (Json.read content).document with
  | error mismatch => simp [bind, Except.bind]
  | ok decoded =>
      cases (Json.read content).hasSurplus <;> simp [bind, Except.bind, pure, Except.pure]

private theorem decodeAs_lockedVersions {content : ByteArray} {locked : NameMap Version} :
    decodeAs lockedVersions content = .ok locked ↔ IsLock content locked := by
  have member (entry : Option String × Document) (version : String × Version) :
      (entry.1 = some version.1 ∧ Manifest.version entry.2 = .ok version.2) ↔
        ∃ text, entry = (some version.1, .text (some text)) ∧
          Version.parse text = .ok version.2 := by
    obtain ⟨key, document⟩ := entry
    rw [version_eq_ok]
    constructor
    · intro decoded
      obtain ⟨rfl, text, rfl, parsed⟩ := decoded
      exact ⟨text, rfl, parsed⟩
    · intro decoded
      obtain ⟨text, same, parsed⟩ := decoded
      obtain ⟨rfl, rfl⟩ := Prod.mk.inj same
      exact ⟨rfl, text, rfl, parsed⟩
  rw [decodeAs_bytes_eq_ok, lockedVersions, Decode.map_eq_ok]
  simp only [Decode.members_eq_ok, member]
  constructor
  · intro decoded
    obtain ⟨⟨members, versions, document, all, built⟩, alone⟩ := decoded
    refine ⟨members, versions, ?_, all, built⟩
    rw [← document, ← alone]
  · intro lock
    obtain ⟨members, versions, reading, all, built⟩ := lock
    rw [reading]
    exact ⟨⟨members, versions, rfl, all, built⟩, rfl⟩

variable {disk : Disk} {directory : Path}

theorem loadLock_eq_some {locked : NameMap Version} :
    loadLock disk directory = .ok (some locked) ↔ HasLock disk directory locked := by
  rw [loadLock, companion, HasLock]
  cases read : disk.read (directory.child lockFile) with
  | error fault => cases fault <;> simp [bind, Except.bind, pure, Except.pure]
  | ok content =>
      simp only [Except.ok.injEq, exists_eq_left', ← decodeAs_lockedVersions]
      cases decoded : decodeAs lockedVersions content <;>
        simp [bind, Except.bind, objectTo, Functor.map, Except.map, decoded]

theorem loadLock_eq_none :
    loadLock disk directory = .ok none ↔
      disk.read (directory.child lockFile) = .error .notFound := by
  rw [loadLock, companion]
  cases disk.read (directory.child lockFile) with
  | error fault => cases fault <;> simp [bind, Except.bind, pure, Except.pure]
  | ok content =>
      cases decoded : decodeAs lockedVersions content <;>
        simp [bind, Except.bind, objectTo, Functor.map, Except.map, decoded]

theorem exists_loadLock_iff :
    (∃ locked, loadLock disk directory = .ok locked) ↔ HasUsableLock disk directory := by
  rw [HasUsableLock, ← loadLock_eq_none]
  simp only [← loadLock_eq_some]
  constructor
  · intro loaded
    obtain ⟨locked, loaded⟩ := loaded
    cases locked with
    | none => exact .inl loaded
    | some locked => exact .inr ⟨locked, loaded⟩
  · intro usable
    rcases usable with loaded | ⟨locked, loaded⟩
    · exact ⟨none, loaded⟩
    · exact ⟨some locked, loaded⟩

variable {declared : NameMap Constraint} {locked : NameMap Version} {dependencies : Dependencies}

theorem lockedDirect_eq_ok {names : List String} {direct : List (String × Version)} :
    lockedDirect locked names = .ok direct ↔
      direct.map Prod.fst = names ∧ ∀ entry ∈ direct, entry ∈ locked.entries := by
  induction names generalizing direct with
  | nil =>
      rw [lockedDirect, Except.ok.injEq, eq_comm, List.map_eq_nil_iff]
      exact (and_iff_left_of_imp fun empty => by simp [empty]).symm
  | cons name names induction =>
      rw [lockedDirect]
      cases found : locked.get? name with
      | none =>
          simp only [reduceCtorEq, false_iff]
          intro split
          obtain ⟨named, inside⟩ := split
          obtain ⟨⟨first, version⟩, rest, rfl, rfl, _⟩ := List.map_eq_cons_iff.1 named
          have member := inside _ List.mem_cons_self
          rw [← NameMap.get?_eq_some, found] at member
          cases member
      | some version =>
          have member := NameMap.get?_eq_some.1 found
          simp only [bind_eq_ok, induction]
          constructor
          · intro looked
            obtain ⟨rest, ⟨named, inside⟩, built⟩ := looked
            obtain rfl := Except.ok.inj built
            exact ⟨by rw [List.map_cons, named], List.forall_mem_cons.2 ⟨member, inside⟩⟩
          · intro split
            obtain ⟨named, inside⟩ := split
            obtain ⟨⟨first, other⟩, rest, rfl, rfl, restNamed⟩ := List.map_eq_cons_iff.1 named
            obtain ⟨firstInside, restInside⟩ := List.forall_mem_cons.1 inside
            have same : other = version := by
              rw [← NameMap.get?_eq_some, found] at firstInside
              exact (Option.some.inj firstInside).symm
            rw [same]
            exact ⟨rest, ⟨restNamed, restInside⟩, rfl⟩

/-- The declared names take their versions from the lock, in the order of the names. -/
theorem ofList_lockedDirect {direct : List (String × Version)}
    (looked : lockedDirect locked declared.names = .ok direct) :
    NameMap.ofList direct = locked.filterNames declared.contains := by
  obtain ⟨named, inside⟩ := lockedDirect_eq_ok.1 looked
  have distinct : (direct.map Prod.fst).Nodup := by
    rw [named]
    exact declared.nodup_names
  apply NameMap.eq_of_mem_iff
  intro entry
  rw [NameMap.mem_entries_ofList distinct, NameMap.mem_entries_filterNames,
    NameMap.contains_eq_true, ← named]
  constructor
  · intro member
    exact ⟨inside entry member, List.mem_map_of_mem member⟩
  · intro kept
    obtain ⟨member, isDeclared⟩ := kept
    obtain ⟨other, otherMember, sameName⟩ := List.mem_map.1 isDeclared
    -- The lock has one entry of this name, so the two are the same.
    have found : locked.get? entry.1 = some entry.2 := NameMap.get?_eq_some.2 member
    have otherFound : locked.get? other.1 = some other.2 :=
      NameMap.get?_eq_some.2 (inside other otherMember)
    rw [sameName, found] at otherFound
    rw [Prod.ext sameName.symm (Option.some.inj otherFound)]
    exact otherMember

theorem exists_lockedDirect_iff {names : List String} :
    (∃ direct, lockedDirect locked names = .ok direct) ↔ ∀ name ∈ names, name ∈ locked.names := by
  constructor
  · intro looked name listed
    obtain ⟨direct, looked⟩ := looked
    obtain ⟨named, inside⟩ := lockedDirect_eq_ok.1 looked
    rw [← named] at listed
    obtain ⟨entry, member, rfl⟩ := List.mem_map.1 listed
    exact List.mem_map_of_mem (inside entry member)
  · intro covered
    induction names with
    | nil => exact ⟨[], rfl⟩
    | cons name names induction =>
        obtain ⟨first, rest⟩ := List.forall_mem_cons.1 covered
        obtain ⟨version, found⟩ := NameMap.exists_get?_iff.2 first
        obtain ⟨direct, looked⟩ := induction rest
        refine ⟨(name, version) :: direct, ?_⟩
        rw [lockedDirect, found]
        exact bind_eq_ok.2 ⟨direct, looked, rfl⟩

/-- The declared part of a lock and the rest of it. -/
def partsOf (declared : NameMap Constraint) (locked : NameMap Version) : Dependencies where
  direct := Dependencies.listed (locked.filterNames declared.contains)
  indirect := Dependencies.listed (locked.filterNames fun name => !declared.contains name)

/-- A lock is split if it holds every declared name and only valid names. -/
theorem splitLock_eq_ok :
    splitLock declared locked = .ok dependencies ↔
      (∀ name ∈ declared.names, name ∈ locked.names) ∧
      (∀ name ∈ locked.names, PackageName.isValid name = true) ∧
      dependencies = partsOf declared locked := by
  have apart : ∀ name ∈ (locked.filterNames declared.contains).names,
      name ∉ (locked.filterNames fun name => !declared.contains name).names := by
    intro name isDirect isIndirect
    have kept := (NameMap.mem_names_filterNames.1 isDirect).2
    have dropped := (NameMap.mem_names_filterNames.1 isIndirect).2
    rw [kept] at dropped
    cases dropped
  have whole : (∀ name ∈ (locked.filterNames declared.contains).names ++
        (locked.filterNames fun name => !declared.contains name).names,
          PackageName.isValid name = true) ↔
      ∀ name ∈ locked.names, PackageName.isValid name = true := by
    apply forall_congr'
    intro name
    apply imp_congr_left
    rw [List.mem_append, NameMap.mem_names_filterNames, NameMap.mem_names_filterNames,
      ← and_or_left]
    cases declared.contains name <;> simp
  rw [splitLock, bind_eq_ok, ← exists_lockedDirect_iff, ← whole]
  simp only [pinnedDependencies_eq_ok, Dependencies.ofMaps_eq_ok]
  constructor
  · intro split
    obtain ⟨direct, looked, valid, _, built⟩ := split
    rw [ofList_lockedDirect looked] at valid built
    exact ⟨⟨direct, looked⟩, valid, built⟩
  · intro split
    obtain ⟨⟨direct, looked⟩, valid, built⟩ := split
    refine ⟨direct, looked, ?_⟩
    rw [ofList_lockedDirect looked]
    exact ⟨valid, apart, built⟩

/-- Dependencies that split a lock by declared names. -/
structure SplitsLock (declared : NameMap Constraint) (locked : NameMap Version)
    (dependencies : Dependencies) : Prop where
  entries : ∀ name version,
    ⟨name, version⟩ ∈ dependencies.all ↔ locked.get? name = some version
  once : (dependencies.all.map Dependency.name).Nodup
  direct : ∀ name, name ∈ dependencies.direct.map Dependency.name ↔ name ∈ declared.names
  indirect : ∀ name, name ∈ dependencies.indirect.map Dependency.name ↔
    name ∈ locked.names ∧ name ∉ declared.names
  directAscending : (dependencies.direct.map Dependency.name).Pairwise (· < ·)
  indirectAscending : (dependencies.indirect.map Dependency.name).Pairwise (· < ·)

theorem mem_listed {map : NameMap Version} {name : String} {version : Version} :
    ⟨name, version⟩ ∈ Dependencies.listed map ↔ (name, version) ∈ map.entries := by
  simp [Dependencies.listed]

theorem nodup_of_isOrderly (orderly : dependencies.IsOrderly) :
    (dependencies.all.map Dependency.name).Nodup := by
  have distinct {names : List String} (ascending : names.Pairwise (· < ·)) : names.Nodup := by
    apply ascending.imp
    intro first second below same
    rw [same] at below
    exact String.lt_irrefl _ below
  rw [Dependencies.all, List.map_append, List.nodup_append]
  refine ⟨distinct orderly.directAscending, distinct orderly.indirectAscending, ?_⟩
  intro name isDirect other isIndirect same
  rw [same] at isDirect
  exact orderly.apart other isDirect isIndirect

private theorem splitsLock_of_splitLock (split : splitLock declared locked = .ok dependencies) :
    SplitsLock declared locked dependencies := by
  have orderly := splitLock_isOrderly split
  obtain ⟨covered, _, parts⟩ := splitLock_eq_ok.1 split
  refine {
    entries := ?_
    once := nodup_of_isOrderly orderly
    direct := ?_
    indirect := ?_
    directAscending := orderly.directAscending
    indirectAscending := orderly.indirectAscending }
  · intro name version
    rw [NameMap.get?_eq_some, Dependencies.all, List.mem_append, parts, partsOf, mem_listed,
      mem_listed, NameMap.mem_entries_filterNames, NameMap.mem_entries_filterNames, ← and_or_left]
    cases declared.contains name <;> simp
  · intro name
    rw [parts, partsOf, Dependencies.map_name_listed, NameMap.mem_names_filterNames,
      NameMap.contains_eq_true]
    exact and_iff_right_of_imp (covered name)
  · intro name
    rw [parts, partsOf, Dependencies.map_name_listed, NameMap.mem_names_filterNames,
      Bool.not_eq_true', ← Bool.not_eq_true, NameMap.contains_eq_true]

section Parsing

variable {cache : PackageCache} {content : ByteArray} {path : Path} {record : LegacyRecord}
  {project : Project}

/-- The project of a legacy manifest. -/
def legacyProject (path : Path) (directories : List Path) (kind : ProjectKind)
    (dependencies : Dependencies) : Project where
  manifestPath := path
  schema := .legacy
  kind := kind
  sourceDirectories := directories
  dependencies := dependencies
  testDependencies := Dependencies.empty
  testsRelative := Sidecar.defaultTestDirectory

theorem legacyOf_eq_ok_of_application (application : record.exposedModules = [])
    {directories : List Path} {lock : Option (NameMap Version)} :
    legacyOf disk cache path directories lock record = .ok project ↔
      ∃ locked dependencies, lock = some locked ∧
        splitLock record.dependencies locked = .ok dependencies ∧
        legacyProject path directories (.application record.elmVersion.low) dependencies =
          project := by
  have nothing : record.exposedModules.isEmpty = true := List.isEmpty_iff.2 application
  unfold legacyOf
  rw [if_pos nothing]
  cases lock with
  | none => simp
  | some locked =>
      simp only [bind_eq_ok, Option.some.injEq, exists_and_left, exists_eq_left']
      exact exists_congr fun dependencies => and_congr_right fun _ =>
        ⟨Except.ok.inj, congrArg Except.ok⟩

theorem legacyOf_eq_ok_of_package (exposes : record.exposedModules ≠ [])
    {directories : List Path} {lock : Option (NameMap Version)} :
    legacyOf disk cache path directories lock record = .ok project ↔
      ∃ name dependencies, packageNameOf? record.repository = some name ∧
        resolveConstraints disk cache record.dependencies lock = .ok dependencies ∧
        legacyProject path directories
          (.package name record.version record.elmVersion record.exposedModules) dependencies =
            project := by
  have something : ¬record.exposedModules.isEmpty = true := by
    rw [List.isEmpty_iff]
    exact exposes
  unfold legacyOf
  rw [if_neg something]
  cases packageNameOf? record.repository with
  | none => simp
  | some name =>
      simp only [bind_eq_ok, Option.some.injEq, exists_and_left, exists_eq_left']
      exact exists_congr fun dependencies => and_congr_right fun _ =>
        ⟨Except.ok.inj, congrArg Except.ok⟩

/-- A legacy application is made of the parts of its lock. -/
theorem parseLegacy_eq_ok_of_application
    (decoded : decodeAs legacyRecord content = .ok record)
    (application : record.exposedModules = []) :
    parseLegacy disk cache content path = .ok project ↔
      ∃ directories locked dependencies,
        sourceDirectories record.sourceDirectories = .ok directories ∧
        HasLock disk path.directory locked ∧
        splitLock record.dependencies locked = .ok dependencies ∧
        legacyProject path directories (.application record.elmVersion.low) dependencies =
          project := by
  simp only [parseLegacy, bind_eq_ok, objectTo_eq_ok, decoded, Except.ok.injEq, exists_eq_left',
    legacyOf_eq_ok_of_application application, ← loadLock_eq_some]
  constructor
  · intro parsed
    obtain ⟨directories, listed, _, loaded, locked, dependencies, rfl, split, built⟩ := parsed
    exact ⟨directories, locked, dependencies, listed, loaded, split, built⟩
  · intro parts
    obtain ⟨directories, locked, dependencies, listed, loaded, split, built⟩ := parts
    exact ⟨directories, listed, _, loaded, locked, dependencies, rfl, split, built⟩

end Parsing

/-- A legacy manifest that exposes nothing and names source directories gives an
application exactly if its directory has a lock that holds every declared name and only
valid names.  The dependencies then are the entries of the lock: the declared names are
direct and the others indirect.  The compiler version is the lower bound of the declared
range, and there are no dependencies of tests. -/
theorem legacy_application_splits_lock {content : ByteArray} {record : LegacyRecord}
    (decoded : decodeAs legacyRecord content = .ok record)
    (application : record.exposedModules = []) (sources : record.sourceDirectories ≠ [])
    (disk : Disk) (cache : PackageCache) (path : Path) :
    ((∃ project, parseAs .legacy disk cache content path = .ok project) ↔
      ∃ locked, HasLock disk path.directory locked ∧
        (∀ name ∈ record.dependencies.names, name ∈ locked.names) ∧
        ∀ name ∈ locked.names, PackageName.isValid name = true) ∧
    ∀ project, parseAs .legacy disk cache content path = .ok project →
      project.kind = .application record.elmVersion.low ∧
      project.testDependencies = Dependencies.empty ∧
      ∃ locked, HasLock disk path.directory locked ∧
        SplitsLock record.dependencies locked project.dependencies := by
  simp only [parseAs, parseLegacy_eq_ok_of_application decoded application]
  refine ⟨⟨?_, ?_⟩, ?_⟩
  · intro parsed
    obtain ⟨_, directories, locked, dependencies, _, lock, split, _⟩ := parsed
    obtain ⟨covered, valid, _⟩ := splitLock_eq_ok.1 split
    exact ⟨locked, lock, covered, valid⟩
  · intro fits
    obtain ⟨locked, lock, covered, valid⟩ := fits
    have split := splitLock_eq_ok.2 ⟨covered, valid, rfl⟩
    have listed := sourceDirectories_eq_ok.2 ⟨sources, rfl⟩
    exact ⟨_, _, locked, _, listed, lock, split, rfl⟩
  · intro project parsed
    obtain ⟨directories, locked, dependencies, _, lock, split, rfl⟩ := parsed
    exact ⟨rfl, rfl, locked, lock, splitsLock_of_splitLock split⟩

/-- A lock that holds one name twice and a version that the manifest does not admit. -/
def laxLock : String :=
  "\x7b\"elm/json\": \"1.0.0\", \"elm/core\": \"5.1.1\", \"elm/json\": \"1.1.3\"\x7d"

/-- The lock decides on its own which versions an application has, and a file whose
values are no versions is no lock. -/
theorem legacy_application_splits_lock_lax :
    ∃ record, decodeAs legacyRecord legacyApplication = .ok record ∧
      record.exposedModules = [] ∧ record.sourceDirectories ≠ [] ∧
      (∃ project locked, parseAs .legacy (companionDisk none (some laxLock)) .empty
          legacyApplication ⟨"/p/elm-package.json"⟩ = .ok project ∧
        project.dependencies = ⟨[⟨"elm/core", ⟨5, 1, 1⟩⟩], [⟨"elm/json", ⟨1, 1, 3⟩⟩]⟩ ∧
        HasLock (companionDisk none (some laxLock)) ⟨"/p"⟩ locked ∧
        SplitsLock record.dependencies locked project.dependencies) ∧
      ¬∃ locked, HasLock (companionDisk none (some exampleSidecar)) ⟨"/p"⟩ locked ∧
        (∀ name ∈ record.dependencies.names, name ∈ locked.names) ∧
        ∀ name ∈ locked.names, PackageName.isValid name = true := by
  have facts : (∃ record ∈ (decodeAs legacyRecord legacyApplication).toOption,
        record.exposedModules = [] ∧ record.sourceDirectories ≠ []) ∧
      (∃ project ∈ (parseAs .legacy (companionDisk none (some laxLock)) .empty
          legacyApplication ⟨"/p/elm-package.json"⟩).toOption,
        project.dependencies = ⟨[⟨"elm/core", ⟨5, 1, 1⟩⟩], [⟨"elm/json", ⟨1, 1, 3⟩⟩]⟩) ∧
      (parseAs .legacy (companionDisk none (some exampleSidecar)) .empty
        legacyApplication ⟨"/p/elm-package.json"⟩).toOption = none := by
    decide +kernel
  have place : Path.directory ⟨"/p/elm-package.json"⟩ = ⟨"/p"⟩ := by decide +kernel
  obtain ⟨⟨record, decodes, application, sources⟩, ⟨project, parses, pinned⟩, refused⟩ := facts
  have decoded := toOption_eq_some.1 decodes
  have parsed := toOption_eq_some.1 parses
  have good := legacy_application_splits_lock decoded application sources
    (companionDisk none (some laxLock)) .empty ⟨"/p/elm-package.json"⟩
  have bad := legacy_application_splits_lock decoded application sources
    (companionDisk none (some exampleSidecar)) .empty ⟨"/p/elm-package.json"⟩
  rw [place] at good bad
  obtain ⟨_, _, locked, lock, split⟩ := good.2 project parsed
  refine ⟨record, decoded, application, sources,
    ⟨project, locked, parsed, pinned, lock, split⟩, ?_⟩
  intro fits
  obtain ⟨other, success⟩ := bad.1.2 fits
  rw [toOption_eq_some.2 success] at refused
  cases refused

end Manifest

end ElmAtlas
