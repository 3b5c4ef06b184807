import ElmAtlas.Proofs.Manifest.Identity
import ElmAtlas.Proofs.Workspace.Client
import ElmAtlas.Proofs.Workspace.Discovery

/-!
# The manifests that are attached

Projects come into a registry on four ways: they are attached, found by a
discovery, restored from a state or replayed from the journal.  Whatever the order
of these steps, and whatever happens to the disk between them, every attached
manifest lies at a place, under the file name of its schema, and no manifest is
attached twice.
-/

namespace ElmAtlas

/-- A project whose manifest lies at a place, under the file name of its schema. -/
structure Project.IsPlaced (project : Project) : Prop where
  place : project.manifestPath.IsPlace
  named : project.manifestPath.fileName? = some project.schema.fileName

theorem Project.isPlaced_of_load {disk : Disk} {cache : PackageCache} {path : Path}
    {project : Project} (place : path.IsPlace)
    (loaded : Manifest.load disk cache path = .ok project) : project.IsPlaced := by
  obtain ⟨schema, same⟩ := Manifest.load_identifies loaded
  refine ⟨same ▸ place, ?_⟩
  rw [same]
  exact Schema.fileName?_of_ofPath? schema

/-- A change that attaches, if anything, a placed project. -/
def Change.IsPlaced (change : Change) : Prop :=
  ∀ project ∈ change.outcome, project.IsPlaced

namespace Registry

/-- The invariant of a registry. -/
structure IsOrderly (registry : Registry) : Prop where
  placed : ∀ project ∈ registry.projects, project.IsPlaced
  distinct : registry.projects.Pairwise fun left right =>
    left.manifestPath.sameAs right.manifestPath = false

namespace IsOrderly

variable {registry : Registry}

theorem apply (orderly : registry.IsOrderly) {change : Change} (placed : change.IsPlaced) :
    (registry.apply change).IsOrderly := by
  constructor
  · intro project member
    rcases of_mem_apply member with old | new
    · exact orderly.placed project old
    · exact placed project new
  · rw [apply_projects, List.pairwise_append]
    refine ⟨orderly.distinct.filter _, ?_, ?_⟩
    · cases change <;> simp [Change.outcome]
    · intro left leftMember right rightMember
      -- What was kept is not concerned by the change, and what is new is.
      have kept := (List.mem_filter.1 leftMember).2
      have concerned := Change.concerns_of_mem_outcome (by simpa using rightMember)
      rw [← Bool.not_eq_true]
      intro same
      rw [Change.concerns_congr same, concerned] at kept
      exact Bool.noConfusion kept

theorem replay (orderly : registry.IsOrderly) {entries : List (Ticket × Change)}
    (placed : ∀ entry ∈ entries, entry.2.IsPlaced) : (registry.replay entries).IsOrderly := by
  induction entries generalizing registry with
  | nil => exact orderly
  | cons entry entries induction =>
      obtain ⟨first, rest⟩ := List.forall_mem_cons.1 placed
      exact induction (orderly.apply first) rest

theorem insert (orderly : registry.IsOrderly) {project : Project} (placed : project.IsPlaced) :
    (registry.insert project).IsOrderly := by
  have change : (Change.attached project).IsPlaced := by
    intro other member
    obtain rfl : project = other := by simpa [Change.outcome] using member
    exact placed
  exact orderly.apply change

/-- An attached project splits the list: no other project has its manifest. -/
private theorem exists_split (orderly : registry.IsOrderly) {project : Project}
    (attached : project ∈ registry.projects) :
    ∃ before after, registry.projects = before ++ project :: after ∧
      (∀ other ∈ before, other.manifestPath.sameAs project.manifestPath = false) ∧
      ∀ other ∈ after, other.manifestPath.sameAs project.manifestPath = false := by
  obtain ⟨before, after, whole⟩ := List.append_of_mem attached
  have distinct := orderly.distinct
  rw [whole, List.pairwise_append, List.pairwise_cons] at distinct
  obtain ⟨_, ⟨behind, _⟩, across⟩ := distinct
  refine ⟨before, after, whole, ?_, ?_⟩
  · intro other member
    exact across other member project List.mem_cons_self
  · intro other member
    rw [Path.sameAs_comm]
    exact behind other member

private theorem find?_eq (orderly : registry.IsOrderly) {project : Project}
    (attached : project ∈ registry.projects) :
    registry.find? project.manifestPath = some project := by
  obtain ⟨before, after, whole, front, _⟩ := orderly.exists_split attached
  have unseen : before.find? (fun other =>
      other.manifestPath.sameAs project.manifestPath) = none := by
    rw [List.find?_eq_none]
    intro other member
    simp [front other member]
  rw [find?, whole, List.find?_append, unseen, Option.none_or]
  exact List.find?_cons_of_pos (Path.sameAs_iff.2 rfl)

/-- A detachment takes out the one project and keeps the others in order. -/
private theorem remove_projects (orderly : registry.IsOrderly) {project : Project}
    (attached : project ∈ registry.projects) :
    ∃ before after, registry.projects = before ++ project :: after ∧
      (registry.remove project.manifestPath).projects = before ++ after := by
  obtain ⟨before, after, whole, front, behind⟩ := orderly.exists_split attached
  refine ⟨before, after, whole, ?_⟩
  have own : project.manifestPath.sameAs project.manifestPath = true :=
    Path.sameAs_iff.2 rfl
  rw [remove, whole, List.filter_append, List.filter_cons_of_neg (by simp [own]),
    List.filter_eq_self.2 (fun other member => by simp [front other member]),
    List.filter_eq_self.2 (fun other member => by simp [behind other member])]

end IsOrderly

/-- Placed projects with different paths make an orderly registry. -/
private theorem isOrderly_of_different {projects : List Project}
    (placed : ∀ project ∈ projects, project.IsPlaced)
    (different : (projects.map Project.manifestPath).Nodup) (settings : Settings) :
    IsOrderly ⟨projects, settings⟩ := by
  refine ⟨placed, (List.pairwise_map.1 different).imp_of_mem ?_⟩
  intro left right leftMember rightMember unequal
  rw [← Bool.not_eq_true]
  intro same
  exact unequal ((placed left leftMember).place.eq_of_sameAs (placed right rightMember).place same)

end Registry

namespace Workspace

private theorem isPlace_of_resolveManifest {disk : Disk} {path manifest : Path}
    (place : path.IsPlace)
    (resolved : resolveManifest disk path = .ok manifest) : manifest.IsPlace := by
  unfold resolveManifest at resolved
  split at resolved
  · cases resolved
  · cases resolved
  · obtain rfl := Except.ok.inj resolved
    exact place
  · split at resolved
    · rename_i found
      obtain rfl := Except.ok.inj resolved
      obtain ⟨schema, _, rfl⟩ := List.mem_map.1 (List.mem_of_find?_eq_some found)
      obtain ⟨names, proper, rfl⟩ := place
      refine ⟨names ++ [schema.fileName], ?_,
        Path.child_ofNames proper schema.isEntryName_fileName⟩
      simpa [or_imp, forall_and] using ⟨proper, schema.isEntryName_fileName⟩
    · cases resolved

private theorem isPlaced_of_readProject {disk : Disk} (sound : disk.IsSound) {cache : PackageCache}
    {path : Path} {project : Project} (read : readProject disk cache path = .ok project) :
    project.IsPlaced := by
  unfold readProject at read
  obtain ⟨manifest, resolved, loaded⟩ := bind_eq_ok.1 read
  have place := isPlace_of_resolveManifest (sound.isPlace_absolute path) resolved
  split at loaded
  · rename_i found success
    obtain rfl := Except.ok.inj loaded
    exact Project.isPlaced_of_load place success
  · cases loaded

theorem mem_scan {disk : Disk} {cache : PackageCache} {root : Path} {project : Project} :
    project ∈ scan disk cache root ↔
      ∃ candidate ∈ Discovery.candidates disk (disk.absolute root),
        Manifest.load disk cache candidate = .ok project := by
  rw [scan, List.mem_filterMap]
  simp only [toOption_eq_some]

/-- The manifests of a scan are among the candidates, in their order. -/
theorem scan_sublist (disk : Disk) (cache : PackageCache) (root : Path) :
    ((scan disk cache root).map Project.manifestPath).Sublist
      (Discovery.candidates disk (disk.absolute root)) := by
  rw [scan]
  induction Discovery.candidates disk (disk.absolute root) with
  | nil => exact List.Sublist.slnil
  | cons candidate rest induction =>
      rw [List.filterMap_cons]
      split
      · exact induction.cons _
      · rename_i project loaded
        rw [List.map_cons, (Manifest.load_identifies (toOption_eq_some.1 loaded)).2]
        exact induction.cons_cons _

/-- A discovery makes an orderly list. -/
theorem scan_isOrderly {disk : Disk} (sound : disk.IsSound) (cache : PackageCache)
    (root : Path) (settings : Settings) :
    Registry.IsOrderly ⟨scan disk cache root, settings⟩ := by
  obtain ⟨distinct, places⟩ :=
    Discovery.candidates_places sound (sound.isPlace_absolute root)
  refine Registry.isOrderly_of_different ?_
    ((scan_sublist disk cache root).nodup distinct) settings
  intro project member
  obtain ⟨candidate, listed, loaded⟩ := mem_scan.1 member
  exact Project.isPlaced_of_load (places candidate listed) loaded

theorem restore_isOrderly {disk : Disk} (sound : disk.IsSound) (cache : PackageCache)
    (state : State) : (restore disk cache state).IsOrderly := by
  rw [restore]
  refine List.foldlRecOn (motive := Registry.IsOrderly) _ _ ⟨by simp, List.Pairwise.nil⟩ ?_
  intro registry orderly path _
  split
  · rename_i project loaded
    exact orderly.insert (Project.isPlaced_of_load (sound.isPlace_absolute ⟨path⟩) loaded)
  · exact orderly

/-- The invariant of a workspace: what is journaled may be replayed. -/
structure IsOrderly (workspace : Workspace) : Prop where
  registry : workspace.registry.IsOrderly
  journal : ∀ entry ∈ workspace.journal, entry.2.IsPlaced

namespace IsOrderly

variable {workspace : Workspace}

theorem commitChange (orderly : workspace.IsOrderly) (ticket : Ticket) {change : Change}
    (placed : change.IsPlaced) : (workspace.commitChange ticket change).IsOrderly := by
  refine ⟨orderly.registry.apply placed, ?_⟩
  intro entry member
  rcases of_mem_commitChange member with old | rfl
  · exact orderly.journal entry old
  · exact placed

theorem finish (orderly : workspace.IsOrderly) (ticket : Ticket) (replacement : Replacement)
    (brings : (replacement.replace workspace.registry).IsOrderly) :
    (workspace.finish ticket replacement).IsOrderly := by
  constructor
  · rw [finish_registry]
    split
    · refine brings.replay ?_
      intro entry member
      exact orderly.journal entry (mem_laterChanges.1 member).1
    · exact orderly.registry
  · rw [finish_journal]
    intro entry member
    exact orderly.journal entry (List.mem_filter.1 member).1

theorem discoverUnder (orderly : workspace.IsOrderly) (ticket : Ticket) {found : List Project}
    (brings : Registry.IsOrderly ⟨found, workspace.settings⟩) :
    (workspace.discoverUnder ticket found).1.IsOrderly :=
  orderly.finish ticket (.discovered found) brings

theorem loadUnder (orderly : workspace.IsOrderly) (ticket : Ticket) {restored : Registry}
    (brings : restored.IsOrderly) : (workspace.loadUnder ticket restored).1.IsOrderly :=
  orderly.finish ticket (.restored restored) brings

end IsOrderly

/-- The workspaces that operations lead to.  Every step finds a disk and a cache of
its own, and it may use a ticket that was taken at any time before. -/
inductive Operated : Workspace → Prop where
  | new (settings : Settings) : Operated (withSettings settings)
  | requestChange {workspace : Workspace} (operated : Operated workspace) :
      Operated workspace.requestChange.1
  | requestReplacement {workspace : Workspace} (operated : Operated workspace) :
      Operated workspace.requestReplacement.1
  | attach {workspace : Workspace} (operated : Operated workspace) (ticket : Ticket)
      {disk : Disk} (sound : disk.IsSound) (cache : PackageCache) (path : Path) :
      Operated (workspace.attachUnder ticket (readProject disk cache path))
  | detach {workspace : Workspace} (operated : Operated workspace) (ticket : Ticket)
      {disk : Disk} (sound : disk.IsSound) (path : Path)
      (attached : workspace.registry.isAttached (disk.absolute path) = true) :
      Operated (workspace.commitChange ticket (.detached (disk.absolute path)))
  | discover {workspace : Workspace} (operated : Operated workspace) (ticket : Ticket)
      {disk : Disk} (sound : disk.IsSound) (cache : PackageCache) (root : Path) :
      Operated (workspace.discoverUnder ticket (scan disk cache root)).1
  | loadState {workspace : Workspace} (operated : Operated workspace) (ticket : Ticket)
      {disk : Disk} (sound : disk.IsSound) (cache : PackageCache) (state : State) :
      Operated (workspace.loadUnder ticket (restore disk cache state)).1
  | updateSettings {workspace : Workspace} (operated : Operated workspace)
      (update : Settings → Settings) : Operated (workspace.updateSettings update)

/-- The disk that a request finds. -/
def Request.disk : Request → Disk
  | attach disk _ _ => disk
  | detach disk _ => disk
  | discover disk _ _ => disk
  | loadState disk _ _ => disk

namespace Operated

variable {workspace : Workspace}

/-- An operation that is performed to its end is made of such steps. -/
theorem perform (operated : Operated workspace) (request : Request)
    (sound : request.disk.IsSound) : Operated (workspace.perform request) := by
  cases request with
  | attach disk cache path =>
      simp only [Workspace.perform, Workspace.attach]
      exact operated.requestChange.attach _ sound cache path
  | detach disk path =>
      rw [Workspace.perform]
      rcases detach_cases workspace disk path with ⟨attached, result⟩ | ⟨_, result⟩
      · rw [result]
        exact operated.requestChange.detach _ sound path attached
      · rw [result]
        exact operated.requestChange
  | discover disk cache root =>
      simp only [Workspace.perform, Workspace.discover]
      exact operated.requestReplacement.discover _ sound cache root
  | loadState disk cache state =>
      simp only [Workspace.perform, Workspace.loadState]
      exact operated.requestReplacement.loadState _ sound cache state

theorem isOrderly (operated : Operated workspace) : workspace.IsOrderly := by
  induction operated with
  | new settings => exact ⟨⟨by simp [withSettings], List.Pairwise.nil⟩, by simp [withSettings]⟩
  | requestChange _ orderly => exact ⟨orderly.registry, orderly.journal⟩
  | requestReplacement _ orderly => exact ⟨orderly.registry, orderly.journal⟩
  | attach _ ticket sound cache path orderly =>
      unfold attachUnder
      split
      · rename_i project read
        refine orderly.commitChange ticket ?_
        intro other member
        obtain rfl : project = other := by simpa [Change.outcome] using member
        exact isPlaced_of_readProject sound read
      · exact orderly
  | detach _ ticket sound path attached orderly =>
      exact orderly.commitChange ticket fun _ member => by simp [Change.outcome] at member
  | discover _ ticket sound cache root orderly =>
      exact orderly.discoverUnder ticket (scan_isOrderly sound cache root _)
  | loadState _ ticket sound cache state orderly =>
      exact orderly.loadUnder ticket (restore_isOrderly sound cache state)
  | updateSettings _ update orderly =>
      exact ⟨⟨orderly.registry.placed, orderly.registry.distinct⟩, orderly.journal⟩

end Operated

theorem detach_of_mem {workspace : Workspace} (orderly : workspace.IsOrderly)
    {project : Project} (attached : project ∈ workspace.projects) (disk : Disk) :
    workspace.detach disk project.manifestPath =
      (workspace.requestChange.1.commitChange workspace.requestChange.2
        (.detached project.manifestPath), true) := by
  have place := (orderly.registry.placed project attached).place
  have found : workspace.registry.isAttached project.manifestPath = true :=
    List.any_eq_true.2 ⟨project, attached, Path.sameAs_iff.2 rfl⟩
  have here : disk.absolute project.manifestPath = project.manifestPath :=
    place.absolutize_eq disk.cwd
  rcases detach_cases workspace disk project.manifestPath with ⟨_, result⟩ | ⟨absent, _⟩
  · rw [result, here]
  · rw [here, found] at absent
    cases absent

/-- Attached manifests lie at different places, each given by an absolute path in
normal form that ends in the file name of its schema.  A project is therefore found
under its own manifest path, and a detachment of this path takes out the project
and nothing else. -/
theorem attached_manifests_at_places {workspace : Workspace} (operated : Operated workspace) :
    (workspace.projects.Pairwise fun left right =>
      left.manifestPath.sameAs right.manifestPath = false) ∧
    (∀ project ∈ workspace.projects,
      project.manifestPath.isAbsolute = true ∧
      project.manifestPath.normalize = project.manifestPath ∧
      project.manifestPath.fileName? = some project.schema.fileName) ∧
    ∀ project ∈ workspace.projects, ∀ disk : Disk,
      workspace.project? disk project.manifestPath = some project ∧
      (workspace.detach disk project.manifestPath).2 = true ∧
      ∃ before after, workspace.projects = before ++ project :: after ∧
        (workspace.detach disk project.manifestPath).1.projects = before ++ after := by
  have orderly := operated.isOrderly
  refine ⟨orderly.registry.distinct, ?_, ?_⟩
  · intro project attached
    have placed := orderly.registry.placed project attached
    exact ⟨placed.place.isAbsolute, placed.place.normalize_eq, placed.named⟩
  · intro project attached disk
    have place := (orderly.registry.placed project attached).place
    rw [detach_of_mem orderly attached disk]
    refine ⟨?_, rfl, orderly.registry.remove_projects attached⟩
    rw [project?, Disk.absolute, place.absolutize_eq]
    exact orderly.registry.find?_eq attached

/-- A disk with one project, in a directory below the one from which it is seen. -/
def exampleDisk (directory : String) : Disk :=
  let manifest :=
    "\x7b\"type\": \"application\", \"source-directories\": [\"src\"], " ++
    "\"elm-version\": \"0.19.1\", " ++
    "\"dependencies\": \x7b\"direct\": \x7b\x7d, \"indirect\": \x7b\x7d\x7d, " ++
    "\"test-dependencies\": \x7b\"direct\": \x7b\x7d, \"indirect\": \x7b\x7d\x7d\x7d"
  let project := .directory [("elm.json", .file manifest.toUTF8 false)]
  ⟨.directory [("w", .directory [(directory, project)])], ⟨"/w"⟩⟩

theorem exampleDisk_isSound {directory : String} (proper : IsEntryName directory) :
    (exampleDisk directory).IsSound := by
  have top : IsEntryName "w" := by decide
  have manifest : IsEntryName "elm.json" := by decide
  have absolute : (Path.mk "/w").isAbsolute = true := by decide
  refine ⟨?_, absolute⟩
  simp only [exampleDisk, Node.IsTree, Node.AreTrees]
  refine ⟨List.nodup_singleton _, top, ⟨List.nodup_singleton _, proper, ?_, trivial⟩, trivial⟩
  exact ⟨List.nodup_singleton _, manifest, trivial, trivial⟩

/-- The project is attached twice, by its directory and by its manifest. -/
def attachedTwice : Workspace :=
  (Workspace.empty.perform (.attach (exampleDisk "a") .empty ⟨".//a/"⟩)).perform
    (.attach (exampleDisk "a") .empty ⟨"/w/b/../a/elm.json"⟩)

private theorem attachedTwice_operated : Operated attachedTwice :=
  ((Operated.new {}).perform (.attach (exampleDisk "a") .empty ⟨".//a/"⟩)
    (exampleDisk_isSound (by decide))).perform
      (.attach (exampleDisk "a") .empty ⟨"/w/b/../a/elm.json"⟩) (exampleDisk_isSound (by decide))

theorem attached_manifests_at_places_attachedTwice :
    ∃ project, attachedTwice.projects = [project] ∧
      attachedTwice.project? (exampleDisk "a") project.manifestPath = some project ∧
      (attachedTwice.detach (exampleDisk "a") project.manifestPath).2 = true ∧
      (attachedTwice.detach (exampleDisk "a") project.manifestPath).1.projects = [] := by
  have once : attachedTwice.projects.length = 1 := by decide +kernel
  obtain ⟨project, alone⟩ := List.length_eq_one_iff.1 once
  obtain ⟨found, detached, before, after, whole, left⟩ :=
    (attached_manifests_at_places attachedTwice_operated).2.2 project (by simp [alone])
      (exampleDisk "a")
  have others : before ++ after = [] := by
    have lengths := congrArg List.length (whole.symm.trans alone)
    simp only [List.length_append, List.length_cons, List.length_nil] at lengths
    refine List.length_eq_zero_iff.1 ?_
    rw [List.length_append]
    omega
  exact ⟨project, alone, found, detached, left.trans others⟩

end Workspace

end ElmAtlas
