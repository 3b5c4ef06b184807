import ElmAtlas.PackageCache
import ElmAtlas.Proofs.Constraint.Least
import ElmAtlas.Proofs.Disk.Listing
import ElmAtlas.Proofs.Version

/-!
# Resolving constraints

A version of a package is installed if a compiler keeps a directory that is named for it.
A constraint resolves to the greatest installed version that satisfies it, and where there
is none to the lowest version of its range.  What counts is which versions are installed:
neither the order in which directories are listed nor the compiler that keeps a version
makes a difference.
-/

namespace ElmAtlas

namespace PackageName

theorem halves?_eq_some {name author project : String} :
    halves? name = some (author, project) ↔
      name = author ++ "/" ++ project ∧ '/' ∉ author.toList := by
  have written : name = author ++ "/" ++ project ↔
      name.toList = author.toList ++ '/' :: project.toList := by
    rw [← String.toList_inj]
    simp
  rw [written, ← Text.splitOnce_eq_some, halves?, Option.map_eq_some_iff]
  constructor
  · intro cut
    obtain ⟨⟨before, after⟩, found, shape⟩ := cut
    cases shape
    rw [found, String.toList_ofList, String.toList_ofList]
  · intro found
    refine ⟨_, found, ?_⟩
    simp only [String.ofList_toList]

end PackageName

namespace PackageCache

/-- A directory lists a directory that is named for the version. -/
def Holds (disk : Disk) (directory : Path) (version : Version) : Prop :=
  ∃ entry ∈ (disk.entries directory).map Prod.fst,
    disk.isDirectory (directory.child entry) = true ∧ Version.parse entry = .ok version

/-- One of the compilers keeps the version of the package. -/
def Has (cache : PackageCache) (disk : Disk) (name : String) (version : Version) : Prop :=
  ∃ home author project compiler,
    cache.home = some home ∧ name = author ++ "/" ++ project ∧ '/' ∉ author.toList ∧
      (compiler = "0.19.1" ∨ compiler = "0.19.0") ∧
      Holds disk (packageDirectory home author project compiler) version

variable {cache : PackageCache} {disk : Disk} {name : String} {version : Version}
  {constraint : Constraint}

theorem mem_versionsIn {directory : Path} :
    version ∈ versionsIn disk directory ↔ Holds disk directory version := by
  have named (entry : String) :
      Version.ofText? entry = some version ↔ Version.parse entry = .ok version := by
    rw [Version.ofText?_eq_some, Version.parse_eq_ok]
  rw [versionsIn, List.mem_filterMap, Holds]
  constructor
  · intro listed
    obtain ⟨⟨entry, node⟩, member, found⟩ := listed
    simp only at found
    split at found
    · rename_i directory
      exact ⟨entry, List.mem_map.2 ⟨_, member, rfl⟩, directory, (named entry).1 found⟩
    · cases found
  · intro holds
    obtain ⟨entry, listed, directory, read⟩ := holds
    obtain ⟨⟨entry, node⟩, member, rfl⟩ := List.mem_map.1 listed
    refine ⟨(entry, node), member, ?_⟩
    simp only at directory read ⊢
    rw [if_pos directory]
    exact (named entry).2 read

theorem installed_pairwise (cache : PackageCache) (disk : Disk) (name : String) :
    (cache.installed disk name).Pairwise (· < ·) := by
  unfold installed
  split
  · exact Version.sortOnce_pairwise _
  · exact List.Pairwise.nil

theorem mem_installed : version ∈ cache.installed disk name ↔ cache.Has disk name version := by
  unfold installed
  split
  · rename_i home author project atHome halves
    rw [Version.mem_sortOnce, List.mem_flatMap]
    obtain ⟨written, free⟩ := PackageName.halves?_eq_some.1 halves
    constructor
    · intro kept
      obtain ⟨compiler, known, listed⟩ := kept
      have named : compiler = "0.19.1" ∨ compiler = "0.19.0" := by
        simpa [compilers] using known
      exact ⟨home, author, project, compiler, atHome, written, free, named,
        mem_versionsIn.1 listed⟩
    · intro has
      obtain ⟨otherHome, otherAuthor, otherProject, compiler, otherAtHome, otherWritten,
        otherFree, named, holds⟩ := has
      have sameHalves := PackageName.halves?_eq_some.2 ⟨otherWritten, otherFree⟩
      rw [halves] at sameHalves
      rw [atHome] at otherAtHome
      cases sameHalves
      cases otherAtHome
      exact ⟨compiler, by simpa [compilers] using named, mem_versionsIn.2 holds⟩
  · rename_i nowhere
    constructor
    · intro listed
      exact absurd listed List.not_mem_nil
    · intro has
      obtain ⟨home, author, project, compiler, atHome, written, free, _⟩ := has
      exact (nowhere home author project atHome
        (PackageName.halves?_eq_some.2 ⟨written, free⟩)).elim

/-- The installed versions among which a constraint chooses. -/
def choices (cache : PackageCache) (disk : Disk) (name : String) (constraint : Constraint) :
    Set Version :=
  {version | cache.Has disk name version ∧ constraint.satisfies version = true}

theorem mem_filter_installed :
    version ∈ (cache.installed disk name).filter constraint.satisfies ↔
      version ∈ cache.choices disk name constraint := by
  rw [List.mem_filter, mem_installed]
  rfl

/-- Where an installed version satisfies the constraint, the greatest of them is found. -/
theorem isGreatest_of_choices (nonempty : (cache.choices disk name constraint).Nonempty) :
    ∃ found, cache.resolve? disk name constraint = some found ∧
      IsGreatest (cache.choices disk name constraint) found := by
  have listed : {other | other ∈ (cache.installed disk name).filter constraint.satisfies} =
      cache.choices disk name constraint :=
    Set.ext fun version => mem_filter_installed
  rw [resolve?]
  cases chosen : Version.latest? ((cache.installed disk name).filter constraint.satisfies) with
  | none =>
      obtain ⟨version, chooses⟩ := nonempty
      rw [← mem_filter_installed, Version.latest?_eq_none.1 chosen] at chooses
      exact absurd chooses List.not_mem_nil
  | some found =>
      refine ⟨found, rfl, ?_⟩
      rw [← listed]
      exact Version.isGreatest_of_latest? chosen

/-- Where no installed version satisfies the constraint, its lowest version is taken. -/
theorem resolve?_of_no_choice
    (nothing : ∀ version, cache.Has disk name version → constraint.satisfies version = false) :
    cache.resolve? disk name constraint = constraint.leastVersion? := by
  have empty : (cache.installed disk name).filter constraint.satisfies = [] := by
    apply List.filter_eq_nil_iff.2
    intro version listed
    rw [nothing version (mem_installed.1 listed)]
    exact Bool.false_ne_true
  rw [resolve?, empty]
  rfl

theorem satisfies_of_resolve? {found : Version}
    (resolved : cache.resolve? disk name constraint = some found) :
    constraint.satisfies found = true := by
  by_cases nonempty : (cache.choices disk name constraint).Nonempty
  · obtain ⟨chosen, same, greatest⟩ := isGreatest_of_choices nonempty
    rw [resolved] at same
    cases same
    exact greatest.1.2
  · have nothing (version : Version) (has : cache.Has disk name version) :
        constraint.satisfies version = false := by
      rw [← Bool.not_eq_true]
      intro admitted
      exact nonempty ⟨version, has, admitted⟩
    rw [resolve?_of_no_choice nothing] at resolved
    exact (Constraint.leastVersion?_eq_some.1 resolved).2

theorem holds_of_relists {other : Disk} (relists : disk.Relists other) (directory : Path)
    (version : Version) : Holds other directory version ↔ Holds disk directory version := by
  unfold Holds
  simp only [(relists.entries_perm directory).mem_iff, relists.isDirectory]

theorem has_of_relists {other : Disk} (relists : disk.Relists other) (cache : PackageCache)
    (name : String) (version : Version) :
    cache.Has other name version ↔ cache.Has disk name version := by
  unfold Has
  simp only [holds_of_relists relists]

/-- The same versions are listed where the same versions are installed. -/
theorem installed_congr {otherCache : PackageCache} {other : Disk}
    (same : ∀ version, otherCache.Has other name version ↔ cache.Has disk name version) :
    otherCache.installed other name = cache.installed disk name := by
  apply Version.eq_of_pairwise_of_mem_iff
  · exact installed_pairwise otherCache other name
  · exact installed_pairwise cache disk name
  · intro version
    rw [mem_installed, mem_installed, same version]

/-- The installed versions are listed in ascending order, each once.  A constraint resolves
to the greatest of them that satisfies it, or else to its lowest version, so what it
resolves to satisfies it.  Both depend on nothing but which versions are installed. -/
theorem resolve?_optimal (cache : PackageCache) (disk : Disk) (name : String)
    (constraint : Constraint) :
    (cache.installed disk name).Pairwise (· < ·) ∧
    (∀ version, version ∈ cache.installed disk name ↔ cache.Has disk name version) ∧
    ((cache.choices disk name constraint).Nonempty →
      ∃ found, cache.resolve? disk name constraint = some found ∧
        IsGreatest (cache.choices disk name constraint) found) ∧
    ((∀ version, cache.Has disk name version → constraint.satisfies version = false) →
      cache.resolve? disk name constraint = constraint.leastVersion?) ∧
    (∀ found, cache.resolve? disk name constraint = some found →
      constraint.satisfies found = true) ∧
    (∀ other, disk.Relists other →
      cache.installed other name = cache.installed disk name ∧
      cache.resolve? other name constraint = cache.resolve? disk name constraint) ∧
    ∀ (otherCache : PackageCache) (other : Disk),
      (∀ version, otherCache.Has other name version ↔ cache.Has disk name version) →
      otherCache.installed other name = cache.installed disk name ∧
      otherCache.resolve? other name constraint = cache.resolve? disk name constraint := by
  have congruent (otherCache : PackageCache) (other : Disk)
      (same : ∀ version, otherCache.Has other name version ↔ cache.Has disk name version) :
      otherCache.installed other name = cache.installed disk name ∧
      otherCache.resolve? other name constraint = cache.resolve? disk name constraint := by
    have listed := installed_congr same
    exact ⟨listed, by rw [resolve?, resolve?, listed]⟩
  refine ⟨installed_pairwise cache disk name, fun _ => mem_installed, isGreatest_of_choices,
    resolve?_of_no_choice, fun _ => satisfies_of_resolve?, ?_, congruent⟩
  intro other relists
  exact congruent cache other (has_of_relists relists cache name)

/-- A disk on which two compilers keep versions of one package. -/
def shelves (newer older : List (String × Node)) : Disk where
  top := .directory [("h", .directory [("0.19.1", shelf newer), ("0.19.0", shelf older)])]
  cwd := ⟨"/"⟩
where
  shelf (entries : List (String × Node)) : Node :=
    .directory [("packages", .directory [("elm", .directory [("core", .directory entries)])])]

theorem shelves_relists {newer others : List (String × Node)} (order : newer.Perm others)
    (distinct : (newer.map Prod.fst).Nodup) (older : List (String × Node)) :
    (shelves newer older).Relists (shelves others older) := by
  constructor
  · have shelf : (shelves.shelf newer).Relists (shelves.shelf others) := by
      apply Node.Relists.below_first
      apply Node.Relists.below_first
      apply Node.Relists.below_first
      exact Node.Relists.of_perm order distinct
    apply Node.Relists.below_first
    exact Node.Relists.below_first shelf _ _
  · rfl

/-- One version is padded with a blank, one is kept twice, and a file and a directory bear
names that do not count. -/
def mixedShelf : List (String × Node) :=
  [(" 1.0.3", .directory []), ("1.0.10", .file ByteArray.empty false),
    ("1.0.9-rc", .directory []), ("1.0.9", .directory [])]

def olderShelf : List (String × Node) :=
  [("2.0.0", .directory []), ("1.0.9", .directory [])]

/-- The versions of both shelves, each once. -/
def tidyShelf : List (String × Node) :=
  [("1.0.3", .directory []), ("1.0.9", .directory []), ("2.0.0", .directory [])]

def shelvesCache : PackageCache :=
  ⟨some ⟨"/h"⟩⟩

theorem resolve?_optimal_mixedShelf :
    shelvesCache.installed (shelves mixedShelf olderShelf) "elm/core" =
      [⟨1, 0, 3⟩, ⟨1, 0, 9⟩, ⟨2, 0, 0⟩] ∧
    IsGreatest (shelvesCache.choices (shelves mixedShelf olderShelf) "elm/core"
      (.range ⟨1, 0, 0⟩ ⟨2, 0, 0⟩)) ⟨1, 0, 9⟩ ∧
    shelvesCache.resolve? (shelves mixedShelf olderShelf) "elm/core"
      ⟨⟨3, 0, 0⟩, .below, .below, ⟨4, 0, 0⟩⟩ = some ⟨3, 0, 1⟩ ∧
    shelvesCache.installed (shelves mixedShelf.reverse olderShelf) "elm/core" =
      [⟨1, 0, 3⟩, ⟨1, 0, 9⟩, ⟨2, 0, 0⟩] ∧
    shelvesCache.resolve? (shelves [] tidyShelf) "elm/core" (.range ⟨1, 0, 0⟩ ⟨2, 0, 0⟩) =
      some ⟨1, 0, 9⟩ := by
  have listed : shelvesCache.installed (shelves mixedShelf olderShelf) "elm/core" =
      [⟨1, 0, 3⟩, ⟨1, 0, 9⟩, ⟨2, 0, 0⟩] := by
    decide +kernel
  have tidy : shelvesCache.installed (shelves [] tidyShelf) "elm/core" =
      [⟨1, 0, 3⟩, ⟨1, 0, 9⟩, ⟨2, 0, 0⟩] := by
    decide +kernel
  have resolved : shelvesCache.resolve? (shelves mixedShelf olderShelf) "elm/core"
      (.range ⟨1, 0, 0⟩ ⟨2, 0, 0⟩) = some ⟨1, 0, 9⟩ := by
    rw [resolve?, listed]
    decide
  obtain ⟨_, member, greatest, _, _, relisted, spread⟩ :=
    resolve?_optimal shelvesCache (shelves mixedShelf olderShelf) "elm/core"
      (.range ⟨1, 0, 0⟩ ⟨2, 0, 0⟩)
  obtain ⟨_, _, _, lowest, _⟩ :=
    resolve?_optimal shelvesCache (shelves mixedShelf olderShelf) "elm/core"
      ⟨⟨3, 0, 0⟩, .below, .below, ⟨4, 0, 0⟩⟩
  have has (version : Version) :
      shelvesCache.Has (shelves mixedShelf olderShelf) "elm/core" version ↔
        version = ⟨1, 0, 3⟩ ∨ version = ⟨1, 0, 9⟩ ∨ version = ⟨2, 0, 0⟩ := by
    rw [← member, listed]
    simp
  refine ⟨listed, ?_, ?_, ?_, ?_⟩
  · obtain ⟨found, same, best⟩ := greatest ⟨⟨1, 0, 3⟩, (has _).2 (.inl rfl), by decide⟩
    rw [resolved] at same
    cases same
    exact best
  · rw [lowest]
    · decide
    · intro version installed
      rcases (has version).1 installed with rfl | rfl | rfl
      all_goals decide
  · rw [(relisted _ (shelves_relists (List.reverse_perm mixedShelf).symm (by decide) _)).1]
    exact listed
  · rw [(spread shelvesCache _ ?_).2]
    · exact resolved
    · intro version
      rw [← mem_installed, tidy, has]
      simp

end PackageCache

end ElmAtlas
