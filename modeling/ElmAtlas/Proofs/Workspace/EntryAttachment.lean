import ElmAtlas.Proofs.Workspace.DirectoryAttachment
import ElmAtlas.Proofs.Workspace.Restoration

/-!
# Loading a state and attaching its entries

A state is loaded without requests: the manifests of its entries are read and put into a
new registry one after another.  An attachment first resolves its path, so that the path of
a directory means the manifest inside.  Where no entry names a directory the two read the
same projects, and the loaded state is what the attachments leave of an empty workspace.
-/

namespace ElmAtlas

namespace Workspace

variable {disk : Disk} {cache : PackageCache}

/-- A path that names no directory is its own manifest, if there is one. -/
private theorem resolveManifest_of_not_directory {path manifest : Path}
    (other : disk.isDirectory path = false) (resolved : resolveManifest disk path = .ok manifest) :
    manifest = path := by
  unfold resolveManifest at resolved
  split at resolved
  · cases resolved
  · cases resolved
  · exact (Except.ok.inj resolved).symm
  · rename_i entries found
    have isDirectory : disk.isDirectory path = true := Disk.isDirectory_iff.2 ⟨entries, found⟩
    rw [other] at isDirectory
    cases isDirectory

private theorem resolveManifest_of_isFile {path : Path} (file : disk.isFile path = true) :
    resolveManifest disk path = .ok path := by
  obtain ⟨content, isExecutable, found⟩ := Disk.isFile_iff.1 file
  rw [resolveManifest, found]

/-- An attachment reads what a state's entry means, unless it names a directory. -/
theorem readProject_eq_ok_iff_load {path : Path}
    (other : disk.isDirectory (disk.absolute path) = false) {project : Project} :
    readProject disk cache path = .ok project ↔
      Manifest.load disk cache (disk.absolute path) = .ok project := by
  rw [readProject, bind_eq_ok]
  constructor
  · rintro ⟨manifest, resolved, loaded⟩
    rw [resolveManifest_of_not_directory other resolved] at loaded
    split at loaded
    · rename_i found read
      rw [read, Except.ok.inj loaded]
    · cases loaded
  · intro loaded
    refine ⟨disk.absolute path, resolveManifest_of_isFile (isFile_of_load loaded), ?_⟩
    rw [loaded]

/-- What one entry makes of the registry under restoration. -/
def restoreEntry (disk : Disk) (cache : PackageCache) (registry : Registry) (path : String) :
    Registry :=
  match Manifest.load disk cache (disk.absolute ⟨path⟩) with
  | .ok project => registry.insert project
  | .error _ => registry

theorem restore_eq_foldl (disk : Disk) (cache : PackageCache) (state : State) :
    restore disk cache state =
      state.paths.foldl (restoreEntry disk cache) ⟨[], state.settings⟩ := by
  unfold restore
  apply List.foldl_ext
  intro registry path _
  unfold restoreEntry
  cases Manifest.load disk cache (disk.absolute ⟨path⟩) with
  | ok project => rfl
  | error fault => rfl

/-- An entry that names no directory has the effect of its attachment. -/
theorem restoreEntry_eq_effect {path : String}
    (other : disk.isDirectory (disk.absolute ⟨path⟩) = false) (registry : Registry) :
    restoreEntry disk cache registry path =
      (Request.attach disk cache ⟨path⟩).effect registry := by
  unfold restoreEntry
  split
  · rename_i project loaded
    rw [Request.effect_attach_ok ((readProject_eq_ok_iff_load other).2 loaded)]
    rfl
  · rename_i fault unloaded
    cases read : readProject disk cache ⟨path⟩ with
    | ok project =>
        rw [(readProject_eq_ok_iff_load other).1 read] at unloaded
        cases unloaded
    | error unread => rw [Request.effect_attach_error read]

theorem foldl_restoreEntry_eq_effects {paths : List String}
    (other : ∀ path ∈ paths, disk.isDirectory (disk.absolute ⟨path⟩) = false)
    (registry : Registry) :
    paths.foldl (restoreEntry disk cache) registry =
      (paths.map fun path => Request.attach disk cache ⟨path⟩).foldl Request.effect registry := by
  induction paths generalizing registry with
  | nil => rfl
  | cons path paths induction =>
      obtain ⟨first, rest⟩ := List.forall_mem_cons.1 other
      rw [List.foldl_cons, List.map_cons, List.foldl_cons, restoreEntry_eq_effect first]
      exact induction rest _

/-- The settings play no part in which projects are restored. -/
theorem restoreEntry_projects_congr {left right : Registry}
    (same : left.projects = right.projects) (path : String) :
    (restoreEntry disk cache left path).projects =
      (restoreEntry disk cache right path).projects := by
  unfold restoreEntry
  split
  · exact Registry.apply_projects_congr same (.attached _)
  · exact same

theorem restore_projects_congr (paths : List String) (left right : Settings) :
    (restore disk cache ⟨paths, left⟩).projects = (restore disk cache ⟨paths, right⟩).projects := by
  rw [restore_eq_foldl, restore_eq_foldl]
  refine List.foldl_rel (r := fun left right : Registry => left.projects = right.projects) rfl ?_
  intro path _ leftRegistry rightRegistry same
  exact restoreEntry_projects_congr same path

theorem restoreEntry_of_unreadable {path : String}
    (other : disk.isDirectory (disk.absolute ⟨path⟩) = false) {fault : AttachFault}
    (unreadable : readProject disk cache ⟨path⟩ = .error fault) (registry : Registry) :
    restoreEntry disk cache registry path = registry := by
  rw [restoreEntry_eq_effect other, Request.effect_attach_error unreadable]

/-- An entry that cannot be read may as well be missing. -/
theorem restore_without {path : String}
    (other : disk.isDirectory (disk.absolute ⟨path⟩) = false) {fault : AttachFault}
    (unreadable : readProject disk cache ⟨path⟩ = .error fault)
    (before after : List String) (settings : Settings) :
    restore disk cache ⟨before ++ path :: after, settings⟩ =
      restore disk cache ⟨before ++ after, settings⟩ := by
  simp only [restore_eq_foldl, List.foldl_append, List.foldl_cons]
  rw [restoreEntry_of_unreadable other unreadable]

namespace Idle

variable {workspace : Workspace}

/-- An idle workspace takes over what is restored and answers with its projects. -/
theorem loadState_restored (idle : workspace.Idle) (disk : Disk) (cache : PackageCache)
    (state : State) :
    (workspace.loadState disk cache state).1.registry = restore disk cache state ∧
      (workspace.loadState disk cache state).2 = (restore disk cache state).projects := by
  constructor
  · exact idle.registry_afterReplacement (.restored (restore disk cache state))
  · have fresh : workspace.requestReplacement.1.isFresh workspace.requestReplacement.2 = true :=
      decide_eq_true (Nat.le_succ_of_le idle.committed)
    simp only [loadState, loadUnder, commitReplacement, if_pos fresh, if_true]

end Idle

/-- If no entry of a state names a directory, then an idle workspace that loads it holds
and answers with the projects that attaching the entries one after another leaves of an
empty workspace, in the same order, and has the settings of the state.  An entry whose
attachment fails changes nothing for the others. -/
theorem loadState_eq_attachEntries {workspace : Workspace} (idle : workspace.Idle)
    (disk : Disk) (cache : PackageCache) (state : State)
    (files : ∀ path ∈ state.paths, disk.isDirectory (disk.absolute ⟨path⟩) = false) :
    (workspace.loadState disk cache state).1.projects =
      (Workspace.empty.performAll
        (state.paths.map fun path => .attach disk cache ⟨path⟩)).projects ∧
    (workspace.loadState disk cache state).2 =
      (workspace.loadState disk cache state).1.projects ∧
    (workspace.loadState disk cache state).1.settings = state.settings ∧
    ∀ (before after : List String) (path : String) (fault : AttachFault),
      state.paths = before ++ path :: after →
      (Workspace.empty.attach disk cache ⟨path⟩).2 = .error fault →
      (workspace.loadState disk cache state).1.registry =
        (workspace.loadState disk cache ⟨before ++ after, state.settings⟩).1.registry := by
  obtain ⟨registry, answer⟩ := idle.loadState_restored disk cache state
  refine ⟨?_, ?_, ?_, ?_⟩
  · have attached := (withSettings_idle {}).performAll_registry
      (state.paths.map fun path => .attach disk cache ⟨path⟩)
    rw [projects, projects, empty, attached, registry,
      restore_projects_congr state.paths state.settings {}, restore_eq_foldl,
      foldl_restoreEntry_eq_effects files]
    rfl
  · rw [answer, projects, registry]
  · rw [settings, registry, restore_settings]
  · intro before after path fault listed unreadable
    obtain ⟨paths, saved⟩ := state
    obtain rfl : paths = before ++ path :: after := listed
    have other : disk.isDirectory (disk.absolute ⟨path⟩) = false := files path (by simp)
    obtain ⟨without, _⟩ := idle.loadState_restored disk cache ⟨before ++ after, saved⟩
    rw [registry, without]
    exact restore_without other unreadable before after saved

/-- Two projects that can be read, one that is broken, and a directory. -/
def entryDisk : Disk :=
  let manifest :=
    "\x7b\"type\": \"application\", \"source-directories\": [\"src\"], " ++
    "\"elm-version\": \"0.19.1\", " ++
    "\"dependencies\": \x7b\"direct\": \x7b\x7d, \"indirect\": \x7b\x7d\x7d, " ++
    "\"test-dependencies\": \x7b\"direct\": \x7b\x7d, \"indirect\": \x7b\x7d\x7d\x7d"
  ⟨.directory [("w", .directory [
    ("a", .directory [("elm.json", .file manifest.toUTF8 false)]),
    ("b", .directory [("elm.json", .file manifest.toUTF8 false)]),
    ("c", .directory [("elm.json", .file "".toUTF8 false)])])], ⟨"/w"⟩⟩

/-- The first project is listed again under another spelling. -/
def entryState : State :=
  ⟨["a/elm.json", "c/elm.json", "/w/b/elm.json", "./b/..//a/elm.json", "gone/elm.json"],
    { elmFormatPath := "elm-format" }⟩

theorem loadState_eq_attachEntries_aliased :
    (∀ path ∈ entryState.paths, entryDisk.isDirectory (entryDisk.absolute ⟨path⟩) = false) ∧
    ((attachedFrom "a").loadState entryDisk .empty entryState).1.projects.map Project.manifestPath =
      [⟨"/w/b/elm.json"⟩, ⟨"/w/a/elm.json"⟩] ∧
    ((attachedFrom "a").loadState entryDisk .empty entryState).1.registry =
      ((attachedFrom "a").loadState entryDisk .empty
        ⟨["a/elm.json", "/w/b/elm.json", "./b/..//a/elm.json", "gone/elm.json"],
          { elmFormatPath := "elm-format" }⟩).1.registry := by
  have files : ∀ path ∈ entryState.paths,
      entryDisk.isDirectory (entryDisk.absolute ⟨path⟩) = false := by
    decide +kernel
  have idle : (attachedFrom "a").Idle := ((withSettings_idle {}).perform _).1
  obtain ⟨same, _, _, without⟩ :=
    loadState_eq_attachEntries idle entryDisk .empty entryState files
  have attached : (Workspace.empty.performAll (entryState.paths.map fun path =>
      .attach entryDisk .empty ⟨path⟩)).projects.map Project.manifestPath =
        [⟨"/w/b/elm.json"⟩, ⟨"/w/a/elm.json"⟩] := by
    decide +kernel
  have broken : (Workspace.empty.attach entryDisk .empty ⟨"c/elm.json"⟩).2 =
      .error (.manifest (.invalid ⟨"/w/c/elm.json"⟩ (.document .grammar))) := by
    decide +kernel
  exact ⟨files, same ▸ attached, without ["a/elm.json"] _ "c/elm.json" _ rfl broken⟩

end Workspace

end ElmAtlas
