import ElmAtlas.Proofs.Manifest.Lock
import ElmAtlas.Proofs.Path.Composition
import ElmAtlas.Proofs.Sidecar

/-!
# Declared directories

A manifest declares its source directories as texts, and the sidecar of an application
declares a tests directory.  A project keeps normal forms of them, each once, and resolves
these from its own directory.  That is as good as resolving the texts as they are written:
a file belongs to the project exactly if it lies below a declared directory.
-/

namespace ElmAtlas

namespace Manifest

/-- The tests directory of an application, as its sidecar writes it. -/
inductive DeclaresTests (disk : Disk) (directory : Path) : Path → Prop where
  | standard (missing : disk.read (directory.child Sidecar.fileName) = .error .notFound) :
      DeclaresTests disk directory ⟨"tests"⟩
  | moved {content : ByteArray} {value : String}
      (found : disk.read (directory.child Sidecar.fileName) = .ok content)
      (decoded : Json.Decode.bytes Sidecar.decode content = .ok value) :
      DeclaresTests disk directory ⟨(Path.mk (Text.trimmed value)).slashText⟩

/-- The directories of sources and tests that the manifest at a path declares, as they are
written. -/
inductive Declares (disk : Disk) (path : Path) : List Path → Prop where
  | application {content : ByteArray} {record : ApplicationRecord} {tests : Path}
      (found : disk.read path = .ok content) (named : Schema.ofPath? path = some .current)
      (decoded : decodeAs currentRecord content = .ok (.application record))
      (declaresTests : DeclaresTests disk path.directory tests) :
      Declares disk path (record.sourceDirectories.map Path.mk ++ [tests])
  | package {content : ByteArray} {record : PackageRecord}
      (found : disk.read path = .ok content) (named : Schema.ofPath? path = some .current)
      (decoded : decodeAs currentRecord content = .ok (.package record)) :
      Declares disk path [⟨"src"⟩, ⟨"tests"⟩]
  | legacy {content : ByteArray} {record : LegacyRecord}
      (found : disk.read path = .ok content) (named : Schema.ofPath? path = some .legacy)
      (decoded : decodeAs legacyRecord content = .ok record) :
      Declares disk path (record.sourceDirectories.map Path.mk ++ [⟨"tests"⟩])

/-- A file lies below one of the directories, which are resolved from a base. -/
def LiesBelow (base : Path) (directories : List Path) (file : Path) : Prop :=
  ∃ directory ∈ directories, (directory.absolutize base).components <+: file.components

theorem liesBelow_append {base file : Path} {left right : List Path} :
    LiesBelow base (left ++ right) file ↔ LiesBelow base left file ∨ LiesBelow base right file := by
  simp only [LiesBelow, List.mem_append, or_and_right, exists_or]

theorem liesBelow_singleton {base directory file : Path} :
    LiesBelow base [directory] file ↔
      (directory.absolutize base).components <+: file.components := by
  simp only [LiesBelow, List.mem_singleton, exists_eq_left]

theorem containsFile_iff {project : Project} {file : Path} :
    project.containsFile file = true ↔
      LiesBelow project.directory (project.sourceDirectories ++ [project.testsRelative]) file := by
  rw [liesBelow_append, liesBelow_singleton, Project.containsFile, Bool.or_eq_true,
    List.any_eq_true, Project.absoluteSourceDirectories, Project.testsDirectory]
  simp only [List.mem_map, exists_exists_and_eq_and, Path.isBelow, List.isPrefixOf_iff_prefix,
    LiesBelow]

/-- Of equal paths the first is kept. -/
private theorem exists_distinctPaths (kept : List Path) {paths : List Path} {path : Path}
    (listed : path ∈ paths) :
    ∃ first ∈ distinctPaths kept paths, first.sameAs path = true := by
  induction paths generalizing kept with
  | nil => cases listed
  | cons other paths induction =>
      rw [distinctPaths]
      rcases List.mem_cons.1 listed with rfl | later
      · split
        · rename_i known
          obtain ⟨first, member, same⟩ := List.any_eq_true.1 known
          exact ⟨first, distinctPaths_keeps member paths, same⟩
        · exact ⟨path, distinctPaths_keeps List.mem_cons_self paths, Path.sameAs_iff.2 rfl⟩
      · split
        · exact induction kept later
        · exact induction _ later

/-- The source directories that are kept lie where the declared ones do. -/
theorem liesBelow_sourceDirectories {given : List String} {directories : List Path}
    (listed : sourceDirectories given = .ok directories) {base file : Path} :
    LiesBelow base directories file ↔ LiesBelow base (given.map Path.mk) file := by
  obtain ⟨_, rfl⟩ := sourceDirectories_eq_ok.1 listed
  constructor
  · intro lies
    obtain ⟨directory, kept, below⟩ := lies
    rcases mem_distinctPaths kept with nothing | inside
    · exact (List.not_mem_nil nothing).elim
    · obtain ⟨text, declared, rfl⟩ := List.mem_map.1 inside
      rw [Path.absolutize_normalize] at below
      exact ⟨⟨text⟩, List.mem_map_of_mem declared, below⟩
  · intro lies
    obtain ⟨_, member, below⟩ := lies
    obtain ⟨text, declared, rfl⟩ := List.mem_map.1 member
    have normal : (Path.mk text).normalize ∈
        given.map fun text => (Path.mk text).normalize := List.mem_map_of_mem declared
    obtain ⟨first, kept, same⟩ := exists_distinctPaths [] normal
    refine ⟨first, kept, ?_⟩
    -- Paths with the same components have the same normal form.
    have equal : first.normalize = (Path.mk text).normalize := by
      rw [← Path.normalize_normalize ⟨text⟩, Path.normalize, Path.normalize,
        Path.sameAs_iff.1 same]
    rw [← Path.absolutize_normalize first, equal, Path.absolutize_normalize]
    exact below

private theorem eq_plainForm_of_normalizeTestDirectory {value : String} {path : Path}
    (normal : Sidecar.normalizeTestDirectory value = .ok path) :
    path = Sidecar.plainForm value := by
  by_cases relative : Sidecar.IsRelative (Text.trimmed value)
  · rw [Sidecar.normalizeTestDirectory_of_isRelative relative] at normal
    split at normal
    · cases normal
    · split at normal
      · cases normal
      · exact (Except.ok.inj normal).symm
  · rw [Sidecar.normalizeTestDirectory_of_not_isRelative relative] at normal
    cases normal

/-- The tests directory that is kept is the normal form of the declared one. -/
private theorem exists_declaresTests {disk : Disk} {directory : Path} {tests : Option Path}
    (loaded : loadSidecar disk directory = .ok tests) (elmVersion : Version) :
    ∃ written, DeclaresTests disk directory written ∧
      Project.testsDirectoryOf (.application elmVersion) tests = written.normalize := by
  unfold loadSidecar companion at loaded
  cases read : disk.read (directory.child Sidecar.fileName) with
  | error fault =>
      rw [read] at loaded
      cases fault with
      | notFound =>
          obtain rfl := Except.ok.inj loaded
          have plain : (Path.mk "tests").normalize = ⟨"tests"⟩ := by decide
          exact ⟨_, .standard read, plain.symm⟩
      | _ => cases loaded
  | ok content =>
      rw [read] at loaded
      cases decoded : Json.Decode.bytes Sidecar.decode content with
      | error mismatch => simp [bind, Except.bind, Sidecar.parse, decoded] at loaded
      | ok value =>
          simp only [bind, Except.bind, Sidecar.parse, decoded] at loaded
          split at loaded
          · rename_i path normal
            obtain rfl := Except.ok.inj loaded
            exact ⟨_, .moved read decoded, eq_plainForm_of_normalizeTestDirectory normal⟩
          · cases loaded

section Loading

variable {disk : Disk} {cache : PackageCache} {path : Path} {project : Project}

theorem applicationOf_directories {tests : Option Path} {record : ApplicationRecord}
    (success : applicationOf path tests record = .ok project) :
    sourceDirectories record.sourceDirectories = .ok project.sourceDirectories ∧
      project.testsRelative =
        Project.testsDirectoryOf (.application record.elmVersion) tests := by
  unfold applicationOf at success
  obtain ⟨directories, listed, success⟩ := bind_eq_ok.1 success
  obtain ⟨_, _, success⟩ := bind_eq_ok.1 success
  obtain ⟨_, _, success⟩ := bind_eq_ok.1 success
  obtain rfl := Except.ok.inj success
  exact ⟨listed, rfl⟩

theorem packageOf_directories {tests : Option Path} {record : PackageRecord}
    (success : packageOf disk cache path tests record = .ok project) :
    project.sourceDirectories = [⟨"src"⟩] ∧ project.testsRelative = ⟨"tests"⟩ := by
  unfold packageOf at success
  obtain ⟨_, _, success⟩ := bind_eq_ok.1 success
  obtain ⟨_, _, success⟩ := bind_eq_ok.1 success
  obtain rfl := Except.ok.inj success
  exact ⟨rfl, rfl⟩

theorem legacyOf_directories {directories : List Path} {locked : Option (NameMap Version)}
    {record : LegacyRecord}
    (success : legacyOf disk cache path directories locked record = .ok project) :
    project.sourceDirectories = directories ∧ project.testsRelative = ⟨"tests"⟩ := by
  by_cases application : record.exposedModules = []
  · obtain ⟨_, _, _, _, rfl⟩ := (legacyOf_eq_ok_of_application application).1 success
    exact ⟨rfl, rfl⟩
  · obtain ⟨_, _, _, _, rfl⟩ := (legacyOf_eq_ok_of_package application).1 success
    exact ⟨rfl, rfl⟩

/-- What a project keeps lies where the directories lie that its manifest declares. -/
private theorem exists_declares_of_parseAs {schema : Schema} {content : ByteArray}
    (found : disk.read path = .ok content) (named : Schema.ofPath? path = some schema)
    (parsed : parseAs schema disk cache content path = .ok project) :
    ∃ directories, Declares disk path directories ∧ ∀ base file,
      LiesBelow base (project.sourceDirectories ++ [project.testsRelative]) file ↔
        LiesBelow base directories file := by
  cases schema with
  | current =>
      obtain ⟨record, decoded, success⟩ := bind_eq_ok.1 parsed
      obtain ⟨tests, sidecar, success⟩ := bind_eq_ok.1 success
      cases record with
      | application record =>
          obtain ⟨listed, moved⟩ := applicationOf_directories (objectTo_eq_ok.1 success)
          obtain ⟨written, declaresTests, kept⟩ := exists_declaresTests sidecar record.elmVersion
          refine ⟨_, .application found named (objectTo_eq_ok.1 decoded) declaresTests, ?_⟩
          intro base file
          rw [liesBelow_append, liesBelow_append, liesBelow_sourceDirectories listed,
            liesBelow_singleton, liesBelow_singleton, moved, kept, Path.absolutize_normalize]
      | package record =>
          obtain ⟨sources, tests⟩ := packageOf_directories (objectTo_eq_ok.1 success)
          refine ⟨_, .package found named (objectTo_eq_ok.1 decoded), ?_⟩
          intro base file
          rw [sources, tests]
          rfl
  | legacy =>
      obtain ⟨record, decoded, success⟩ := bind_eq_ok.1 parsed
      obtain ⟨directories, listed, success⟩ := bind_eq_ok.1 success
      obtain ⟨locked, _, success⟩ := bind_eq_ok.1 success
      obtain ⟨sources, tests⟩ := legacyOf_directories (objectTo_eq_ok.1 success)
      refine ⟨_, .legacy found named (objectTo_eq_ok.1 decoded), ?_⟩
      intro base file
      rw [sources, tests, liesBelow_append, liesBelow_append,
        liesBelow_sourceDirectories (objectTo_eq_ok.1 listed)]

/-- A loaded project contains the files below the directories that its manifest declares. -/
theorem exists_declares_of_load (loaded : load disk cache path = .ok project) :
    ∃ directories, Declares disk path directories ∧
      ∀ file, project.containsFile file = true ↔ LiesBelow path.directory directories file := by
  have own : project.directory = path.directory := by
    rw [Project.directory, (load_identifies loaded).2]
  simp only [containsFile_iff, own]
  unfold load at loaded
  split at loaded
  · rename_i content found
    unfold parse at loaded
    split at loaded
    · cases loaded
    · rename_i schema named
      obtain ⟨directories, declares, same⟩ := exists_declares_of_parseAs found named loaded
      exact ⟨directories, declares, same path.directory⟩
  · cases loaded

end Loading

end Manifest

end ElmAtlas
