import ElmAtlas.Proofs.Manifest.Dependencies
import ElmAtlas.Proofs.Path.NormalForm

/-!
# Well-formed projects

Whatever a manifest and its companion files say, a project that comes out of them
is well formed: its dependencies are in order, its source directories are different
paths in normal form, and its tests lie below the project directory.
-/

namespace ElmAtlas

namespace Manifest

private theorem distinctPaths_pairwise {kept : List Path}
    (distinct : kept.Pairwise fun left right => left.sameAs right = false) (paths : List Path) :
    (distinctPaths kept paths).Pairwise fun left right => left.sameAs right = false := by
  induction paths generalizing kept with
  | nil =>
      rw [distinctPaths, List.pairwise_reverse]
      refine distinct.imp ?_
      intro left right different
      rw [Path.sameAs_comm]
      exact different
  | cons path paths induction =>
      rw [distinctPaths]
      split
      · exact induction distinct
      · rename_i new
        refine induction (List.pairwise_cons.2 ⟨?_, distinct⟩)
        intro earlier listed
        rw [Path.sameAs_comm, ← Bool.not_eq_true]
        intro same
        exact new (List.any_eq_true.2 ⟨earlier, listed, same⟩)

theorem mem_distinctPaths {kept paths : List Path} {path : Path}
    (member : path ∈ distinctPaths kept paths) : path ∈ kept ∨ path ∈ paths := by
  induction paths generalizing kept with
  | nil => exact .inl (by simpa [distinctPaths] using member)
  | cons first paths induction =>
      rw [distinctPaths] at member
      split at member
      · exact (induction member).imp_right (List.mem_cons_of_mem _)
      · rcases induction member with inside | later
        · rcases List.mem_cons.1 inside with rfl | earlier
          · exact .inr List.mem_cons_self
          · exact .inl earlier
        · exact .inr (List.mem_cons_of_mem _ later)

theorem distinctPaths_keeps {kept : List Path} {path : Path} (listed : path ∈ kept)
    (paths : List Path) : path ∈ distinctPaths kept paths := by
  induction paths generalizing kept with
  | nil => simpa [distinctPaths] using listed
  | cons first paths induction =>
      rw [distinctPaths]
      split
      · exact induction listed
      · exact induction (List.mem_cons_of_mem _ listed)

theorem sourceDirectories_eq_ok {given : List String} {directories : List Path} :
    sourceDirectories given = .ok directories ↔
      given ≠ [] ∧
        directories = distinctPaths [] (given.map fun text => Path.normalize ⟨text⟩) := by
  unfold sourceDirectories
  cases given with
  | nil => simp
  | cons first rest => simp [eq_comm]

/-- Source directories are different paths in normal form, and there is one. -/
theorem of_sourceDirectories {given : List String} {directories : List Path}
    (listed : sourceDirectories given = .ok directories) :
    directories ≠ [] ∧
    (directories.Pairwise fun left right => left.sameAs right = false) ∧
    ∀ directory ∈ directories, directory.normalize = directory := by
  obtain ⟨nonempty, rfl⟩ := sourceDirectories_eq_ok.1 listed
  refine ⟨?_, distinctPaths_pairwise List.Pairwise.nil _, ?_⟩
  · obtain ⟨first, rest, rfl⟩ := List.exists_cons_of_ne_nil nonempty
    exact List.ne_nil_of_mem (distinctPaths_keeps (List.mem_singleton_self _) _)
  · intro directory member
    rcases mem_distinctPaths member with nothing | inside
    · exact (List.not_mem_nil nothing).elim
    · obtain ⟨text, _, rfl⟩ := List.mem_map.1 inside
      exact Path.normalize_normalize _

end Manifest

namespace Path

/-- A path that leads down by at least one name. -/
def LeadsDown (path : Path) : Prop :=
  ∃ names : List String, names ≠ [] ∧ (∀ name ∈ names, IsEntryName name) ∧ path = descent names

theorem of_mem_portablePieces {text name : String} (listed : name ∈ portablePieces text) :
    name ≠ "" ∧ '/' ∉ name.toList := by
  obtain ⟨piece, member, rfl⟩ := List.mem_map.1 listed
  obtain ⟨inside, nonempty⟩ := List.mem_filter.1 member
  constructor
  · simpa using nonempty
  · rw [String.toList_ofList]
    intro separator
    simpa using (Text.of_mem_split inside separator).2

end Path

namespace Sidecar

/-- What is left of the segments are names. -/
private theorem isEntryName_of_resolveSegments {kept pieces segments : List String}
    (resolved : resolveSegments kept pieces = some segments)
    (keptProper : ∀ name ∈ kept, IsEntryName name)
    (piecesProper : ∀ name ∈ pieces, name ≠ "" ∧ '/' ∉ name.toList) :
    ∀ name ∈ segments, IsEntryName name := by
  fun_induction resolveSegments kept pieces with
  | case1 kept =>
      obtain rfl := Option.some.inj resolved
      simpa using keptProper
  | case2 kept rest induction =>
      exact induction resolved keptProper (List.forall_mem_cons.1 piecesProper).2
  | case3 rest => cases resolved
  | case4 rest last earlier induction =>
      exact induction resolved (List.forall_mem_cons.1 keptProper).2
        (List.forall_mem_cons.1 piecesProper).2
  | case5 kept segment rest notCurrent notParent induction =>
      obtain ⟨first, later⟩ := List.forall_mem_cons.1 piecesProper
      refine induction resolved (List.forall_mem_cons.2 ⟨?_, keptProper⟩) later
      exact ⟨first.1, notCurrent, notParent, first.2⟩

private theorem leadsDown_of_normalizeTestDirectory {value : String} {path : Path}
    (normal : normalizeTestDirectory value = .ok path) : path.LeadsDown := by
  unfold normalizeTestDirectory at normal
  simp only at normal
  split at normal
  · cases normal
  · split at normal
    · cases normal
    · cases normal
    · rename_i segments nonempty resolved
      obtain rfl := Except.ok.inj normal
      refine ⟨segments, ?_, ?_, ?_⟩
      · rintro rfl
        exact nonempty rfl
      · exact isEntryName_of_resolveSegments resolved (by simp)
          fun _ => Path.of_mem_portablePieces
      · rw [← Path.descent_text]

private theorem leadsDown_of_parse {content : ByteArray} {path : Path}
    (parsed : parse content = .ok path) : path.LeadsDown := by
  unfold parse at parsed
  split at parsed
  · cases parsed
  · exact leadsDown_of_normalizeTestDirectory parsed

theorem leadsDown_default : defaultTestDirectory.LeadsDown :=
  ⟨["tests"], by simp, by decide, by decide⟩

end Sidecar

namespace Manifest

private theorem leadsDown_of_loadSidecar {disk : Disk} {directory : Path} {tests : Option Path}
    (loaded : loadSidecar disk directory = .ok tests) : ∀ path ∈ tests, path.LeadsDown := by
  obtain ⟨content, _, parsed⟩ := bind_eq_ok.1 loaded
  rintro path member
  obtain rfl := Option.mem_def.1 member
  split at parsed
  · cases parsed
  · split at parsed
    · rename_i found success
      obtain rfl := Option.some.inj (Except.ok.inj parsed)
      exact Sidecar.leadsDown_of_parse success
    · cases parsed

end Manifest

namespace Project

/-- What holds of every project. -/
structure IsWellFormed (project : Project) : Prop where
  dependencies : project.dependencies.IsOrderly
  testDependencies : project.testDependencies.IsOrderly
  hasSources : project.sourceDirectories ≠ []
  differentSources : project.sourceDirectories.Pairwise fun left right =>
    left.sameAs right = false
  normalSources : ∀ directory ∈ project.sourceDirectories, directory.normalize = directory
  /-- The tests lie below the project directory: behind its normal form, in which `.`
  counts as nothing, stand the names of the tests directory. -/
  tests : ∃ names : List String, names ≠ [] ∧ (∀ name ∈ names, IsEntryName name) ∧
    project.testsRelative.components = names.map .name ∧
    project.testsDirectory.components =
      project.directory.normalize.components.filter (· != .current) ++ names.map .name
  defaultTests : project.kind.isApplication = false ∨ project.schema = .legacy →
    project.testsRelative = ⟨"tests"⟩
  customTests : project.hasCustomTests = true ↔ project.testsRelative ≠ ⟨"tests"⟩
  allDirect : project.kind.isApplication = false →
    project.dependencies.indirect = [] ∧ project.testDependencies.indirect = []

variable {project : Project}

theorem tests_of_leadsDown (down : project.testsRelative.LeadsDown) :
    ∃ names : List String, names ≠ [] ∧ (∀ name ∈ names, IsEntryName name) ∧
      project.testsRelative.components = names.map .name ∧
      project.testsDirectory.components =
        project.directory.normalize.components.filter (· != .current) ++ names.map .name := by
  obtain ⟨names, nonempty, proper, tests⟩ := down
  refine ⟨names, nonempty, proper, ?_, ?_⟩
  · rw [tests, Path.components_descent proper]
  · rw [testsDirectory, tests, Path.components_absolutize_descent proper nonempty]

theorem customTests_of_leadsDown (down : project.testsRelative.LeadsDown) :
    project.hasCustomTests = true ↔ project.testsRelative ≠ ⟨"tests"⟩ := by
  obtain ⟨names, _, proper, tests⟩ := down
  have default : (Path.mk "tests").components = [.name "tests"] := by decide
  rw [hasCustomTests, Sidecar.isCustom, Bool.not_eq_true', ← Bool.not_eq_true, Path.sameAs_iff,
    Sidecar.defaultTestDirectory, not_iff_not]
  constructor
  · intro same
    rw [tests, Path.components_descent proper, default] at same
    have alone : names = ["tests"] :=
      (List.map_injective_iff.2 fun _ _ => Component.name.inj) same
    rw [tests, alone]
    decide
  · intro same
    rw [same]

private theorem leadsDown_testsDirectoryOf {kind : ProjectKind} {override : Option Path}
    (down : ∀ path ∈ override, path.LeadsDown) :
    (testsDirectoryOf kind override).LeadsDown := by
  unfold testsDirectoryOf
  split
  · rename_i directory
    exact down directory rfl
  · exact Sidecar.leadsDown_default

end Project

namespace Manifest

variable {disk : Disk} {cache : PackageCache} {path : Path} {project : Project}

theorem isOrderly_of_pinnedDependencies {direct indirect : NameMap Version}
    {dependencies : Dependencies}
    (pinned : pinnedDependencies direct indirect = .ok dependencies) :
    dependencies.IsOrderly :=
  Dependencies.isOrderly_of_ofMaps (pinnedDependencies_eq_ok.1 pinned)

theorem applicationOf_isWellFormed {tests : Option Path} {record : ApplicationRecord}
    (down : ∀ path ∈ tests, path.LeadsDown)
    (success : applicationOf path tests record = .ok project) : project.IsWellFormed := by
  obtain ⟨directories, listed, success⟩ := bind_eq_ok.1 success
  obtain ⟨dependencies, pinned, success⟩ := bind_eq_ok.1 success
  obtain ⟨testDependencies, testPinned, success⟩ := bind_eq_ok.1 success
  obtain rfl := Except.ok.inj success
  obtain ⟨nonempty, different, normal⟩ := of_sourceDirectories listed
  have below :
      (Project.testsDirectoryOf (.application record.elmVersion) tests).LeadsDown :=
    Project.leadsDown_testsDirectoryOf down
  exact {
    dependencies := isOrderly_of_pinnedDependencies pinned
    testDependencies := isOrderly_of_pinnedDependencies testPinned
    hasSources := nonempty
    differentSources := different
    normalSources := normal
    tests := Project.tests_of_leadsDown below
    defaultTests := by rintro (package | legacy) <;> contradiction
    customTests := Project.customTests_of_leadsDown below
    allDirect := fun package => by cases package }

theorem packageOf_isWellFormed {tests : Option Path} {record : PackageRecord}
    (success : packageOf disk cache path tests record = .ok project) :
    project.IsWellFormed := by
  obtain ⟨dependencies, resolved, success⟩ := bind_eq_ok.1 success
  obtain ⟨testDependencies, testResolved, success⟩ := bind_eq_ok.1 success
  obtain rfl := Except.ok.inj success
  obtain ⟨orderly, direct⟩ := indirect_of_resolveConstraints resolved
  obtain ⟨testOrderly, testDirect⟩ := indirect_of_resolveConstraints testResolved
  have normal : ∀ directory ∈ [Path.mk "src"], directory.normalize = directory := by decide
  exact {
    dependencies := orderly
    testDependencies := testOrderly
    hasSources := by simp
    differentSources := List.pairwise_singleton _ _
    normalSources := normal
    tests := Project.tests_of_leadsDown Sidecar.leadsDown_default
    defaultTests := fun _ => rfl
    customTests := Project.customTests_of_leadsDown Sidecar.leadsDown_default
    allDirect := fun _ => ⟨direct, testDirect⟩ }

theorem splitLock_isOrderly {declared : NameMap Constraint} {locked : NameMap Version}
    {dependencies : Dependencies} (split : splitLock declared locked = .ok dependencies) :
    dependencies.IsOrderly := by
  obtain ⟨direct, _, pinned⟩ := bind_eq_ok.1 split
  exact isOrderly_of_pinnedDependencies pinned

theorem legacyOf_isWellFormed {given : List String} {directories : List Path}
    {locked : Option (NameMap Version)} {record : LegacyRecord}
    (listed : sourceDirectories given = .ok directories)
    (success : legacyOf disk cache path directories locked record = .ok project) :
    project.IsWellFormed := by
  obtain ⟨nonempty, different, normal⟩ := of_sourceDirectories listed
  -- The two kinds differ in their dependencies only.
  have assembled : ∀ (kind : ProjectKind) (dependencies : Dependencies),
      dependencies.IsOrderly →
      (kind.isApplication = false → dependencies.indirect = []) →
      Project.IsWellFormed {
        manifestPath := path, schema := .legacy, kind := kind
        sourceDirectories := directories, dependencies := dependencies
        testDependencies := Dependencies.empty
        testsRelative := Sidecar.defaultTestDirectory } := by
    intro kind dependencies orderly direct
    exact {
      dependencies := orderly
      testDependencies := Dependencies.isOrderly_empty
      hasSources := nonempty
      differentSources := different
      normalSources := normal
      tests := Project.tests_of_leadsDown Sidecar.leadsDown_default
      defaultTests := fun _ => rfl
      customTests := Project.customTests_of_leadsDown Sidecar.leadsDown_default
      allDirect := fun package => ⟨direct package, rfl⟩ }
  unfold legacyOf at success
  split at success
  · split at success
    · cases success
    · obtain ⟨dependencies, split, success⟩ := bind_eq_ok.1 success
      obtain rfl := Except.ok.inj success
      exact assembled _ dependencies (splitLock_isOrderly split) fun package => by cases package
  · split at success
    · cases success
    · obtain ⟨dependencies, resolved, success⟩ := bind_eq_ok.1 success
      obtain rfl := Except.ok.inj success
      obtain ⟨orderly, direct⟩ := indirect_of_resolveConstraints resolved
      exact assembled _ dependencies orderly fun _ => direct

/-- A manifest that can be read gives a well-formed project with the path at which it
was read and the schema it was read in. -/
theorem parsed_isWellFormed {schema : Schema} {content : ByteArray}
    (success : parseAs schema disk cache content path = .ok project) :
    project.manifestPath = path ∧ project.schema = schema ∧ project.IsWellFormed := by
  have identifies := parseAs_identifies success
  refine ⟨identifies.manifestPath, identifies.schema, ?_⟩
  cases schema with
  | current =>
      rw [parseAs, parseCurrent] at success
      obtain ⟨record, _, success⟩ := bind_eq_ok.1 success
      obtain ⟨tests, loaded, success⟩ := bind_eq_ok.1 success
      cases record with
      | application record =>
          exact applicationOf_isWellFormed (leadsDown_of_loadSidecar loaded)
            (objectTo_eq_ok.1 success)
      | package record => exact packageOf_isWellFormed (objectTo_eq_ok.1 success)
  | legacy =>
      rw [parseAs, parseLegacy] at success
      obtain ⟨record, _, success⟩ := bind_eq_ok.1 success
      obtain ⟨directories, listed, success⟩ := bind_eq_ok.1 success
      obtain ⟨locked, _, success⟩ := bind_eq_ok.1 success
      exact legacyOf_isWellFormed (objectTo_eq_ok.1 listed) (objectTo_eq_ok.1 success)

/-- A project directory with a sidecar that moves the tests. -/
def movedTests : Disk :=
  let sidecar := "\x7b\"test-directory\": \".\\\\spec//unit/../all \"\x7d"
  ⟨.directory [("p", .directory [("elm.intellij.json", .file sidecar.toUTF8 false)])], ⟨"/"⟩⟩

def movedTestsManifest : ByteArray :=
  ("\x7b\"type\": \"application\", \"source-directories\": [\"src\", \"./src/\", \"..\"], " ++
    "\"elm-version\": \"0.19.1\", " ++
    "\"dependencies\": \x7b\"direct\": \x7b\"elm/core\": \"1.0.5\"\x7d, " ++
    "\"indirect\": \x7b\"elm/json\": \"1.1.3\"\x7d\x7d, " ++
    "\"test-dependencies\": \x7b\"direct\": \x7b\x7d, \"indirect\": \x7b\x7d\x7d\x7d").toUTF8

theorem parsed_isWellFormed_movedTests :
    ∃ project,
      parseAs .current movedTests .empty movedTestsManifest ⟨"p/./elm.json"⟩ = .ok project ∧
      project.manifestPath = ⟨"p/./elm.json"⟩ ∧ project.testsDirectory = ⟨"p/spec/all"⟩ ∧
      project.sourceDirectories = [⟨"src"⟩, ⟨".."⟩] ∧ project.IsWellFormed := by
  have found : ∃ project ∈
      (parseAs .current movedTests .empty movedTestsManifest ⟨"p/./elm.json"⟩).toOption,
      project.testsDirectory = ⟨"p/spec/all"⟩ ∧
      project.sourceDirectories = [⟨"src"⟩, ⟨".."⟩] := by
    decide +kernel
  obtain ⟨project, parsed, tests, sources⟩ := found
  have success := toOption_eq_some.1 parsed
  obtain ⟨placed, _, wellFormed⟩ := parsed_isWellFormed success
  exact ⟨project, success, placed, tests, sources, wellFormed⟩

end Manifest

end ElmAtlas
