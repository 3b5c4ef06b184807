import ElmAtlas.Proofs.Manifest.DeclaredDirectories
import ElmAtlas.Proofs.Workspace.AttachedManifests

/-!
# The owner of a file

A file may belong to several attached projects.  Its owner is the one whose directory is
the deepest, and of several the one that was attached last.  So a project that does not
contain the file, or that lies less deep than the owner, may come and go without a change
of the owner.
-/

namespace ElmAtlas

namespace Registry

private theorem foldl_deeper_concat (projects : List Project) (project : Project) :
    (projects ++ [project]).foldl deeper none = deeper (projects.foldl deeper none) project := by
  rw [List.foldl_append, List.foldl_cons, List.foldl_nil]

private theorem foldl_deeper_eq_none {projects : List Project} :
    projects.foldl deeper none = none ↔ projects = [] := by
  induction projects using List.reverseRecOn with
  | nil => exact iff_of_true rfl rfl
  | append_singleton projects project =>
      rw [foldl_deeper_concat]
      cases projects.foldl deeper none with
      | none => simp [deeper]
      | some found =>
          rw [deeper]
          split <;> simp

/-- The projects before the one that is found are not deeper, and those behind it are less
deep. -/
theorem foldl_deeper_eq_some {projects : List Project} {owner : Project} :
    projects.foldl deeper none = some owner ↔
      ∃ before after, projects = before ++ owner :: after ∧
        (∀ other ∈ before, other.depth ≤ owner.depth) ∧
        ∀ other ∈ after, other.depth < owner.depth := by
  induction projects using List.reverseRecOn generalizing owner with
  | nil => simp
  | append_singleton projects project induction =>
      -- The last project is compared with the best of those before it.
      rw [foldl_deeper_concat]
      constructor
      · intro chosen
        cases best : projects.foldl deeper none with
        | none =>
            rw [best] at chosen
            obtain rfl := Option.some.inj chosen
            rw [foldl_deeper_eq_none.1 best]
            exact ⟨[], [], rfl, List.forall_mem_nil _, List.forall_mem_nil _⟩
        | some found =>
            obtain ⟨before, after, whole, notDeeper, lessDeep⟩ := induction.1 best
            rw [best, deeper] at chosen
            split at chosen
            · rename_i deep
              obtain rfl := Option.some.inj chosen
              refine ⟨projects, [], rfl, ?_, List.forall_mem_nil _⟩
              intro other listed
              rw [whole] at listed
              rcases List.mem_append.1 listed with earlier | later
              · exact Nat.le_trans (notDeeper other earlier) deep
              · rcases List.mem_cons.1 later with rfl | behind
                · exact deep
                · exact Nat.le_trans (Nat.le_of_lt (lessDeep other behind)) deep
            · rename_i shallow
              obtain rfl := Option.some.inj chosen
              refine ⟨before, after ++ [project], by simp [whole], notDeeper, ?_⟩
              intro other listed
              rcases List.mem_append.1 listed with behind | last
              · exact lessDeep other behind
              · rw [List.mem_singleton.1 last]
                exact Nat.lt_of_not_le shallow
      · intro split
        obtain ⟨before, after, whole, notDeeper, lessDeep⟩ := split
        -- The owner is the last project itself or one of those before it.
        rcases List.eq_nil_or_concat' after with rfl | ⟨inner, last, rfl⟩
        · obtain ⟨rfl, same⟩ := List.append_inj' whole rfl
          obtain rfl := List.singleton_inj.1 same
          cases best : projects.foldl deeper none with
          | none => rfl
          | some found =>
              obtain ⟨front, behind, rfl, _⟩ := induction.1 best
              rw [deeper, if_pos (notDeeper found (by simp))]
        · rw [← List.cons_append, ← List.append_assoc] at whole
          obtain ⟨rfl, same⟩ := List.append_inj' whole rfl
          obtain rfl := List.singleton_inj.1 same
          have best : (before ++ owner :: inner).foldl deeper none = some owner :=
            induction.2 ⟨before, inner, rfl, notDeeper,
              fun other listed => lessDeep other (by simp [listed])⟩
          rw [best, deeper, if_neg (Nat.not_le_of_lt (lessDeep project (by simp)))]

variable {registry : Registry} {file : Path}

theorem owner?_eq_none :
    registry.owner? file = none ↔
      ∀ project ∈ registry.projects, project.containsFile file = false := by
  rw [owner?, foldl_deeper_eq_none, List.filter_eq_nil_iff]
  simp only [Bool.not_eq_true]

theorem owner?_eq_some {owner : Project} :
    registry.owner? file = some owner ↔
      ∃ before after, registry.projects = before ++ owner :: after ∧
        owner.containsFile file = true ∧
        (∀ other ∈ before, other.containsFile file = true → other.depth ≤ owner.depth) ∧
        ∀ other ∈ after, other.containsFile file = true → other.depth < owner.depth := by
  rw [owner?, foldl_deeper_eq_some]
  constructor
  · intro chosen
    obtain ⟨front, behind, whole, notDeeper, lessDeep⟩ := chosen
    obtain ⟨first, rest, parts, rfl, inRest⟩ := List.filter_eq_append_iff.1 whole
    obtain ⟨skipped, after, rfl, outside, contains, rfl⟩ := List.filter_eq_cons_iff.1 inRest
    refine ⟨first ++ skipped, after, ?_, contains, ?_, ?_⟩
    · rw [parts, List.append_assoc]
    · intro other listed inside
      rcases List.mem_append.1 listed with earlier | missed
      · exact notDeeper other (List.mem_filter.2 ⟨earlier, inside⟩)
      · exact absurd inside (outside other missed)
    · intro other listed inside
      exact lessDeep other (List.mem_filter.2 ⟨listed, inside⟩)
  · intro chosen
    obtain ⟨before, after, whole, contains, notDeeper, lessDeep⟩ := chosen
    refine ⟨before.filter (·.containsFile file), after.filter (·.containsFile file), ?_, ?_, ?_⟩
    · rw [whole, List.filter_append, List.filter_cons, if_pos contains]
    · intro other listed
      obtain ⟨earlier, inside⟩ := List.mem_filter.1 listed
      exact notDeeper other earlier inside
    · intro other listed
      obtain ⟨later, inside⟩ := List.mem_filter.1 listed
      exact lessDeep other later inside

/-- A project that does not contain the file or lies less deep than its owner. -/
def IsAside (registry : Registry) (file : Path) (project : Project) : Prop :=
  project.containsFile file = false ∨
    ∃ owner, registry.owner? file = some owner ∧
      project.directory.components.length < owner.directory.components.length

private theorem not_isAside_owner {owner : Project} (owns : registry.owner? file = some owner) :
    ¬registry.IsAside file owner := by
  intro aside
  obtain ⟨_, _, _, contains, _⟩ := owner?_eq_some.1 owns
  rcases aside with outside | ⟨other, otherOwns, shallow⟩
  · rw [contains] at outside
    cases outside
  · rw [owns] at otherOwns
    obtain rfl := Option.some.inj otherOwns
    exact Nat.lt_irrefl _ shallow

/-- A change leaves the owner if the projects that go and come are aside. -/
theorem owner?_apply {change : Change}
    (leaving : ∀ project ∈ registry.projects, change.concerns project.manifestPath = true →
      registry.IsAside file project)
    (coming : ∀ project ∈ change.outcome, registry.IsAside file project) :
    (registry.apply change).owner? file = registry.owner? file := by
  cases owns : registry.owner? file with
  | none =>
      rw [owner?_eq_none]
      intro project listed
      rcases of_mem_apply listed with old | new
      · exact owner?_eq_none.1 owns project old
      · rcases coming project new with outside | ⟨owner, other, _⟩
        · exact outside
        · rw [owns] at other
          cases other
  | some owner =>
      obtain ⟨before, after, whole, contains, notDeeper, lessDeep⟩ := owner?_eq_some.1 owns
      -- The owner is not aside, so it is not among the projects that go.
      have stays : change.concerns owner.manifestPath = false := by
        rw [← Bool.not_eq_true]
        intro concerned
        apply not_isAside_owner owns
        exact leaving owner (by simp [whole]) concerned
      rw [owner?_eq_some, apply_projects, whole, List.filter_append,
        List.filter_cons_of_pos (by simp [stays]), List.append_assoc, List.cons_append]
      refine ⟨_, _, rfl, contains, ?_, ?_⟩
      · intro other listed inside
        exact notDeeper other (List.mem_filter.1 listed).1 inside
      · intro other listed inside
        rcases List.mem_append.1 listed with old | new
        · exact lessDeep other (List.mem_filter.1 old).1 inside
        · rcases coming other (by simpa using new) with outside | ⟨known, same, shallow⟩
          · rw [inside] at outside
            cases outside
          · rw [owns] at same
            obtain rfl := Option.some.inj same
            exact shallow

end Registry

namespace Workspace

/-- A project as some disk and cache gave it. -/
def IsLoaded (project : Project) : Prop :=
  ∃ disk cache, Manifest.load disk cache project.manifestPath = .ok project

theorem isLoaded_of_load {disk : Disk} {cache : PackageCache} {path : Path} {project : Project}
    (loaded : Manifest.load disk cache path = .ok project) : IsLoaded project := by
  refine ⟨disk, cache, ?_⟩
  rw [(Manifest.load_identifies loaded).2]
  exact loaded

private theorem isLoaded_of_readProject {disk : Disk} {cache : PackageCache} {path : Path}
    {project : Project} (read : readProject disk cache path = .ok project) :
    IsLoaded project := by
  obtain ⟨manifest, _, loaded⟩ := bind_eq_ok.1 read
  split at loaded
  · rename_i found success
    obtain rfl := Except.ok.inj loaded
    exact isLoaded_of_load success
  · cases loaded

/-- The invariant of a workspace: what is attached, and what the journal attaches, was
loaded. -/
structure BringsLoaded (workspace : Workspace) : Prop where
  attached : ∀ project ∈ workspace.registry.projects, IsLoaded project
  journaled : ∀ entry ∈ workspace.journal, ∀ project ∈ entry.2.outcome, IsLoaded project

theorem isLoaded_of_mem_apply {registry : Registry} {change : Change}
    (attached : ∀ project ∈ registry.projects, IsLoaded project)
    (brought : ∀ project ∈ change.outcome, IsLoaded project) :
    ∀ project ∈ (registry.apply change).projects, IsLoaded project := by
  intro project listed
  rcases Registry.of_mem_apply listed with old | new
  · exact attached project old
  · exact brought project new

private theorem isLoaded_of_mem_replay {registry : Registry} {entries : List (Ticket × Change)}
    (attached : ∀ project ∈ registry.projects, IsLoaded project)
    (brought : ∀ entry ∈ entries, ∀ project ∈ entry.2.outcome, IsLoaded project) :
    ∀ project ∈ (registry.replay entries).projects, IsLoaded project := by
  induction entries generalizing registry with
  | nil => exact attached
  | cons entry entries induction =>
      obtain ⟨first, rest⟩ := List.forall_mem_cons.1 brought
      exact induction (isLoaded_of_mem_apply attached first) rest

theorem isLoaded_of_mem_restore {disk : Disk} {cache : PackageCache} {state : State} :
    ∀ project ∈ (restore disk cache state).projects, IsLoaded project := by
  rw [restore]
  refine List.foldlRecOn (motive := fun registry : Registry =>
    ∀ project ∈ registry.projects, IsLoaded project) _ _ (List.forall_mem_nil _) ?_
  intro registry attached path _
  split
  · rename_i found loaded
    have change : ∀ project ∈ (Change.attached found).outcome, IsLoaded project := by
      intro project member
      obtain rfl : found = project := by simpa [Change.outcome] using member
      exact isLoaded_of_load loaded
    exact isLoaded_of_mem_apply attached change
  · exact attached

namespace BringsLoaded

variable {workspace : Workspace}

theorem commitChange (brings : workspace.BringsLoaded) (ticket : Ticket) {change : Change}
    (brought : ∀ project ∈ change.outcome, IsLoaded project) :
    (workspace.commitChange ticket change).BringsLoaded := by
  refine ⟨isLoaded_of_mem_apply brings.attached brought, ?_⟩
  intro entry member
  rcases of_mem_commitChange member with old | rfl
  · exact brings.journaled entry old
  · exact brought

theorem finish (brings : workspace.BringsLoaded) (ticket : Ticket) (replacement : Replacement)
    (loaded : ∀ project ∈ (replacement.replace workspace.registry).projects, IsLoaded project) :
    (workspace.finish ticket replacement).BringsLoaded := by
  constructor
  · rw [finish_registry]
    split
    · apply isLoaded_of_mem_replay loaded
      intro entry member
      exact brings.journaled entry (mem_laterChanges.1 member).1
    · exact brings.attached
  · rw [finish_journal]
    intro entry member
    exact brings.journaled entry (List.mem_filter.1 member).1

theorem discoverUnder (brings : workspace.BringsLoaded) (ticket : Ticket)
    {found : List Project} (loaded : ∀ project ∈ found, IsLoaded project) :
    (workspace.discoverUnder ticket found).1.BringsLoaded :=
  brings.finish ticket (.discovered found) loaded

theorem loadUnder (brings : workspace.BringsLoaded) (ticket : Ticket) {restored : Registry}
    (loaded : ∀ project ∈ restored.projects, IsLoaded project) :
    (workspace.loadUnder ticket restored).1.BringsLoaded :=
  brings.finish ticket (.restored restored) loaded

end BringsLoaded

theorem Operated.bringsLoaded {workspace : Workspace} (operated : Operated workspace) :
    workspace.BringsLoaded := by
  induction operated with
  | new settings => exact ⟨List.forall_mem_nil _, List.forall_mem_nil _⟩
  | requestChange _ brings => exact ⟨brings.attached, brings.journaled⟩
  | requestReplacement _ brings => exact ⟨brings.attached, brings.journaled⟩
  | attach _ ticket _ cache path brings =>
      unfold attachUnder
      split
      · rename_i found read
        apply brings.commitChange ticket
        intro project member
        obtain rfl : found = project := by simpa [Change.outcome] using member
        exact isLoaded_of_readProject read
      · exact brings
  | detach _ ticket _ path _ brings =>
      apply brings.commitChange ticket
      intro project member
      cases member
  | discover _ ticket _ cache root brings =>
      apply brings.discoverUnder ticket
      intro project member
      obtain ⟨candidate, _, loaded⟩ := mem_scan.1 member
      exact isLoaded_of_load loaded
  | loadState _ ticket _ cache state brings =>
      exact brings.loadUnder ticket isLoaded_of_mem_restore
  | updateSettings _ update brings => exact ⟨brings.attached, brings.journaled⟩

/-- An attached project contains the files below the directories that its manifest declared
when it was loaded.  A file that no attached project contains has no owner; the owner of any
other file is the last of the deepest projects that contain it.  An attachment of a new
project that is aside leaves the owner, and so does a detachment of projects that are
aside. -/
theorem owner_is_last_deepest {workspace : Workspace} (operated : Operated workspace)
    (disk : Disk) (file : Path) :
    (∀ project ∈ workspace.projects, ∃ (origin : Disk) (cache : PackageCache)
        (directories : List Path),
      Manifest.load origin cache project.manifestPath = .ok project ∧
      Manifest.Declares origin project.manifestPath directories ∧
      ∀ path, project.containsFile path = true ↔
        Manifest.LiesBelow project.directory directories path) ∧
    (workspace.projectForFile? disk file = none ↔
      ∀ project ∈ workspace.projects, project.containsFile (disk.absolute file) = false) ∧
    (∀ owner, workspace.projectForFile? disk file = some owner ↔
      ∃ before after, workspace.projects = before ++ owner :: after ∧
        owner.containsFile (disk.absolute file) = true ∧
        (∀ other ∈ before, other.containsFile (disk.absolute file) = true →
          other.directory.components.length ≤ owner.directory.components.length) ∧
        ∀ other ∈ after, other.containsFile (disk.absolute file) = true →
          other.directory.components.length < owner.directory.components.length) ∧
    (∀ (found : Disk) (cache : PackageCache) (path : Path) (project : Project),
      (workspace.attach found cache path).2 = .ok project →
      workspace.registry.isAttached project.manifestPath = false →
      workspace.registry.IsAside (disk.absolute file) project →
      (workspace.attach found cache path).1.projectForFile? disk file =
        workspace.projectForFile? disk file) ∧
    ∀ (found : Disk) (path : Path),
      (∀ project ∈ workspace.projects,
        project.manifestPath.sameAs (found.absolute path) = true →
        workspace.registry.IsAside (disk.absolute file) project) →
      (workspace.detach found path).1.projectForFile? disk file =
        workspace.projectForFile? disk file := by
  refine ⟨?_, Registry.owner?_eq_none, fun owner => Registry.owner?_eq_some, ?_, ?_⟩
  · intro project attached
    obtain ⟨origin, cache, loaded⟩ := operated.bringsLoaded.attached project attached
    obtain ⟨directories, declares, contains⟩ := Manifest.exists_declares_of_load loaded
    exact ⟨origin, cache, directories, loaded, declares, contains⟩
  · intro found cache path project answered new aside
    rcases attach_cases workspace found cache path with ⟨other, _, result⟩ | ⟨fault, _, result⟩
    · rw [result] at answered ⊢
      obtain rfl := Except.ok.inj answered
      apply Registry.owner?_apply
      · intro earlier listed concerned
        have known := List.any_eq_false.1 new earlier listed
        exact absurd concerned known
      · intro brought member
        obtain rfl : other = brought := by simpa [Change.outcome] using member
        exact aside
    · rw [result] at answered
      cases answered
  · intro found path aside
    rcases detach_cases workspace found path with ⟨_, result⟩ | ⟨_, result⟩
    · rw [result]
      apply Registry.owner?_apply
      · exact aside
      · intro project member
        cases member
    · rw [result]
      rfl

/-- A project inside another one; each takes its whole directory for its sources. -/
def nestedDisk : Disk :=
  let manifest :=
    "\x7b\"type\": \"application\", \"source-directories\": [\"src/..\"], " ++
    "\"elm-version\": \"0.19.1\", " ++
    "\"dependencies\": \x7b\"direct\": \x7b\x7d, \"indirect\": \x7b\x7d\x7d, " ++
    "\"test-dependencies\": \x7b\"direct\": \x7b\x7d, \"indirect\": \x7b\x7d\x7d\x7d"
  let file := .file manifest.toUTF8 false
  ⟨.directory [("w", .directory [("elm.json", file), ("a", .directory [("elm.json", file)])])],
    ⟨"/w"⟩⟩

private theorem nestedDisk_isSound : nestedDisk.IsSound := by
  have absolute : (Path.mk "/w").isAbsolute = true := by decide
  refine ⟨?_, absolute⟩
  simp only [nestedDisk, Node.IsTree, Node.AreTrees]
  decide

def innerAttached : Workspace :=
  Workspace.empty.perform (.attach nestedDisk .empty ⟨"a"⟩)

/-- The outer project contains the file, too, and is attached later, but the inner one stays
the owner. -/
theorem owner_is_last_deepest_nested :
    Operated innerAttached ∧
    ∃ inner outer, innerAttached.projectForFile? nestedDisk ⟨"./a/M.elm"⟩ = some inner ∧
      inner.manifestPath = ⟨"/w/a/elm.json"⟩ ∧
      (innerAttached.attach nestedDisk .empty ⟨"elm.json"⟩).2 = .ok outer ∧
      outer.containsFile ⟨"/w/a/M.elm"⟩ = true ∧
      (innerAttached.attach nestedDisk .empty ⟨"elm.json"⟩).1.projectForFile? nestedDisk
        ⟨"./a/M.elm"⟩ = some inner := by
  have operated : Operated innerAttached :=
    (Operated.new {}).perform (.attach nestedDisk .empty ⟨"a"⟩) nestedDisk_isSound
  have facts : ∃ inner ∈ innerAttached.projectForFile? nestedDisk ⟨"./a/M.elm"⟩,
      ∃ outer ∈ (innerAttached.attach nestedDisk .empty ⟨"elm.json"⟩).2.toOption,
        inner.manifestPath = ⟨"/w/a/elm.json"⟩ ∧ outer.containsFile ⟨"/w/a/M.elm"⟩ = true ∧
        innerAttached.registry.isAttached outer.manifestPath = false ∧
        outer.directory.components.length < inner.directory.components.length := by
    decide +kernel
  obtain ⟨inner, owns, outer, read, placed, contains, new, shallow⟩ := facts
  have attached := toOption_eq_some.1 read
  obtain ⟨_, _, _, attaching, _⟩ := owner_is_last_deepest operated nestedDisk ⟨"./a/M.elm"⟩
  refine ⟨operated, inner, outer, owns, placed, attached, contains, ?_⟩
  rw [attaching nestedDisk .empty ⟨"elm.json"⟩ outer attached new (.inr ⟨inner, owns, shallow⟩)]
  exact owns

end Workspace

end ElmAtlas
