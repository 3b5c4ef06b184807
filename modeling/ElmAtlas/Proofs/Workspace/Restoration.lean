import ElmAtlas.Proofs.Path.Slashes
import ElmAtlas.Proofs.State.Codec
import ElmAtlas.Proofs.Workspace.AttachedManifests
import Mathlib.Data.List.Induction

/-!
# Saving and restoring

The state of a workspace lists its manifests by their texts, with `/` for every
`\`.  So a workspace whose manifests still load comes back from its own text if
none of their paths has a backslash, and only then: a restored path never has
one.
-/

namespace ElmAtlas

namespace Workspace

/-- The first replacement of a fresh workspace takes effect, and nothing is replayed. -/
theorem finish_first (settings : Settings) (replacement : Replacement) :
    ((withSettings settings).requestReplacement.1.finish
        (withSettings settings).requestReplacement.2 replacement).registry =
      replacement.replace ⟨[], settings⟩ := by
  have fresh : (withSettings settings).requestReplacement.1.isFresh
      (withSettings settings).requestReplacement.2 = true := rfl
  have nothing : laterChanges (withSettings settings).requestReplacement.1.journal
      (withSettings settings).requestReplacement.2 = [] := laterChanges_nil _
  rw [finish_registry, if_pos fresh, nothing]
  rfl

/-- A fresh workspace takes over what is restored. -/
theorem loadState_registry (settings : Settings) (disk : Disk) (cache : PackageCache)
    (state : State) :
    ((withSettings settings).loadState disk cache state).1.registry =
      restore disk cache state := by
  simp only [loadState]
  exact finish_first settings (.restored (restore disk cache state))

variable {disk : Disk} {cache : PackageCache}

theorem restore_settings (state : State) :
    (restore disk cache state).settings = state.settings := by
  rw [restore]
  refine List.foldlRecOn
    (motive := fun registry : Registry => registry.settings = state.settings) _ _ rfl ?_
  intro registry kept path _
  split
  · exact kept
  · exact kept

/-- A restored project was loaded from one of the entries. -/
theorem of_mem_restore {state : State} {project : Project}
    (member : project ∈ (restore disk cache state).projects) :
    ∃ path ∈ state.paths, project.manifestPath = disk.absolute ⟨path⟩ := by
  revert member
  rw [restore]
  refine List.foldlRecOn (motive := fun registry : Registry => project ∈ registry.projects →
    ∃ path ∈ state.paths, project.manifestPath = disk.absolute ⟨path⟩) _ _ (by simp) ?_
  intro registry earlier path listed member
  split at member
  · rename_i loadedProject loaded
    rcases List.mem_append.1 member with old | new
    · exact earlier (List.mem_filter.1 old).1
    · obtain rfl := List.mem_singleton.1 new
      exact ⟨path, listed, (Manifest.load_identifies loaded).2⟩
  · exact earlier member

theorem restore_concat {path : String} {project : Project}
    (loaded : Manifest.load disk cache (disk.absolute ⟨path⟩) = .ok project)
    (paths : List String) (settings : Settings) :
    restore disk cache ⟨paths ++ [path], settings⟩ =
      (restore disk cache ⟨paths, settings⟩).insert project := by
  simp only [restore, List.foldl_append, List.foldl_cons, List.foldl_nil, loaded]

/-- Entries that load to different projects are restored in their order. -/
theorem restore_of_loads {projects : List Project} {settings : Settings}
    (orderly : Registry.IsOrderly ⟨projects, settings⟩)
    (loads : ∀ project ∈ projects,
      Manifest.load disk cache project.manifestPath = .ok project) :
    restore disk cache ⟨projects.map (·.manifestPath.text), settings⟩ = ⟨projects, settings⟩ := by
  induction projects using List.reverseRecOn with
  | nil => rfl
  | append_singleton before project induction =>
      obtain ⟨placed, distinct⟩ := orderly
      obtain ⟨earlierDistinct, _, different⟩ := List.pairwise_append.1 distinct
      have earlier := induction
        ⟨fun other member => placed other (List.mem_append_left _ member), earlierDistinct⟩
        fun other member => loads other (List.mem_append_left _ member)
      have last : project ∈ before ++ [project] := by simp
      have loaded : Manifest.load disk cache (disk.absolute ⟨project.manifestPath.text⟩) =
          .ok project := by
        rw [Disk.absolute, (placed project last).place.absolutize_eq]
        exact loads project last
      rw [List.map_append, List.map_singleton, restore_concat loaded, earlier]
      exact Registry.insert_of_different
        (fun other member => different other member project (List.mem_singleton_self _)) settings

/-- Without backslashes a state lists the manifests as they are, and its entries
are in normal form. -/
theorem normalizePaths_state {workspace : Workspace} (orderly : workspace.IsOrderly)
    (free : ∀ project ∈ workspace.projects, '\\' ∉ project.manifestPath.text.toList) :
    State.normalizePaths workspace.state.paths =
      workspace.projects.map (·.manifestPath.text) := by
  have listed : workspace.state.paths = workspace.projects.map (·.manifestPath.text) :=
    List.map_congr_left fun project attached => Path.slashText_eq_text (free project attached)
  rw [listed]
  refine State.normalizePaths_eq_self ?_ ?_
  · refine List.pairwise_map.2 (orderly.registry.distinct.imp ?_)
    intro left right different same
    have components : left.manifestPath.components = right.manifestPath.components :=
      congrArg (fun text => (Path.mk text).components) same
    rw [Path.sameAs_iff.2 components] at different
    cases different
  · intro path member
    obtain ⟨project, attached, rfl⟩ := List.mem_map.1 member
    rw [State.normalizeEntry, (orderly.registry.placed project attached).place.normalize_eq]
    exact Path.slashText_eq_text (free project attached)

/-- A restored manifest has no backslash in its path. -/
theorem backslash_not_mem_restored {workspace : Workspace} (orderly : workspace.IsOrderly)
    {project : Project}
    (restored : project ∈ (restore disk cache
      ⟨State.normalizePaths workspace.state.paths, workspace.settings⟩).projects) :
    '\\' ∉ project.manifestPath.text.toList := by
  obtain ⟨path, member, place⟩ := of_mem_restore restored
  obtain ⟨entry, listed, rfl⟩ := State.of_mem_normalizePaths member
  obtain ⟨original, attached, rfl⟩ := List.mem_map.1 listed
  have absolute : (Path.mk (State.normalizeEntry
      (State.entryOf original.manifestPath))).isAbsolute = true := by
    refine Path.isAbsolute_slashText (Path.isPlace_normalize ?_).isAbsolute
    exact Path.isAbsolute_slashText
      (orderly.registry.placed original attached).place.isAbsolute
  rw [place, Disk.absolute, Path.absolutize_of_isAbsolute absolute]
  exact Path.backslash_not_mem_normalize (Path.backslash_not_mem_slashText _)

/-- What a fresh workspace becomes from the text that a workspace is saved as. -/
def reopened (workspace : Workspace) (disk : Disk) (cache : PackageCache) (fresh : Settings) :
    Except Failure Workspace := do
  let state ← State.parse workspace.state.render
  return ((withSettings fresh).loadState disk cache state).1

theorem reopened_registry (workspace : Workspace) (disk : Disk) (cache : PackageCache)
    (fresh : Settings) :
    ∃ restored, workspace.reopened disk cache fresh = .ok restored ∧
      restored.registry = restore disk cache
        ⟨State.normalizePaths workspace.state.paths, workspace.settings⟩ := by
  rw [reopened, State.parse_render]
  exact ⟨_, rfl, loadState_registry fresh disk cache _⟩

/-- A saved workspace can be restored, and its settings come back as they were.
If every manifest still loads as before, then so do its projects, in their order,
exactly if no manifest path has a backslash; the text of the restored workspace is
then the text that was saved. -/
theorem reopened_projects_iff {workspace : Workspace} (operated : Operated workspace)
    (disk : Disk) (cache : PackageCache)
    (unchanged : ∀ project ∈ workspace.projects,
      Manifest.load disk cache project.manifestPath = .ok project) (fresh : Settings) :
    ∃ restored, workspace.reopened disk cache fresh = .ok restored ∧
      restored.settings = workspace.settings ∧
      (restored.projects = workspace.projects ↔
        ∀ project ∈ workspace.projects, '\\' ∉ project.manifestPath.text.toList) ∧
      (restored.projects = workspace.projects →
        restored.state.render = workspace.state.render) := by
  have orderly := operated.isOrderly
  obtain ⟨restored, opened, registry⟩ := reopened_registry workspace disk cache fresh
  have settings : restored.settings = workspace.settings :=
    (congrArg Registry.settings registry).trans (restore_settings _)
  refine ⟨restored, opened, settings, ⟨?_, ?_⟩, ?_⟩
  · intro same project attached
    rw [← same, projects, registry] at attached
    exact backslash_not_mem_restored orderly attached
  · intro free
    have whole : restored.registry = workspace.registry := by
      rw [registry, normalizePaths_state orderly free]
      exact restore_of_loads orderly.registry unchanged
    exact congrArg Registry.projects whole
  · intro same
    rw [state, same, settings, ← state]

/-- The project of a disk, attached by its directory. -/
def attachedFrom (directory : String) : Workspace :=
  Workspace.empty.perform (.attach (exampleDisk directory) .empty ⟨directory⟩)

private theorem attachedFrom_operated {directory : String} (proper : IsEntryName directory) :
    Operated (attachedFrom directory) :=
  (Operated.new {}).perform (.attach (exampleDisk directory) .empty ⟨directory⟩)
    (exampleDisk_isSound proper)

def quotedName : String :=
  "it's \"here\"\n"

theorem reopened_projects_iff_quotedName :
    (attachedFrom quotedName).projects.length = 1 ∧
      (∀ project ∈ (attachedFrom quotedName).projects,
        Manifest.load (exampleDisk quotedName) .empty project.manifestPath = .ok project) ∧
      ∃ restored, (attachedFrom quotedName).reopened (exampleDisk quotedName) .empty {} =
          .ok restored ∧
        restored.projects = (attachedFrom quotedName).projects ∧
        restored.state.render = (attachedFrom quotedName).state.render := by
  have facts : (attachedFrom quotedName).projects.length = 1 ∧
      (∀ project ∈ (attachedFrom quotedName).projects,
        Manifest.load (exampleDisk quotedName) .empty project.manifestPath = .ok project) ∧
      ∀ project ∈ (attachedFrom quotedName).projects,
        '\\' ∉ project.manifestPath.text.toList := by
    decide +kernel
  obtain ⟨attached, unchanged, free⟩ := facts
  obtain ⟨restored, opened, _, same, text⟩ :=
    reopened_projects_iff (attachedFrom_operated (by decide)) _ _ unchanged {}
  exact ⟨attached, unchanged, restored, opened, same.2 free, text (same.2 free)⟩

/-- A project in a directory with a backslash in its name is not found again. -/
theorem backslash_lost_on_reopening :
    (attachedFrom "a\\b").projects.length = 1 ∧
      (∀ project ∈ (attachedFrom "a\\b").projects,
        Manifest.load (exampleDisk "a\\b") .empty project.manifestPath = .ok project) ∧
      ∃ restored, (attachedFrom "a\\b").reopened (exampleDisk "a\\b") .empty {} = .ok restored ∧
        restored.projects = [] := by
  have facts : (attachedFrom "a\\b").projects.length = 1 ∧
      (∀ project ∈ (attachedFrom "a\\b").projects,
        Manifest.load (exampleDisk "a\\b") .empty project.manifestPath = .ok project) ∧
      (restore (exampleDisk "a\\b") .empty
        ⟨State.normalizePaths (attachedFrom "a\\b").state.paths,
          (attachedFrom "a\\b").settings⟩).projects = [] := by
    decide +kernel
  obtain ⟨attached, unchanged, nothing⟩ := facts
  obtain ⟨restored, opened, registry⟩ :=
    reopened_registry (attachedFrom "a\\b") (exampleDisk "a\\b") .empty {}
  exact ⟨attached, unchanged, restored, opened, by rw [projects, registry, nothing]⟩

end Workspace

end ElmAtlas
