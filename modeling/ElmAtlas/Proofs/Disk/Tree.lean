import ElmAtlas.Proofs.Disk
import Mathlib.Data.List.Nodup

/-!
# File trees

The entries of a directory have proper names, each its own.  So an entry is what its
name looks up, and the names on the way to a place are names of entries.
-/

namespace ElmAtlas

namespace Node

mutual

/-- The entries of every directory have proper names, each its own. -/
def IsTree : Node → Prop
  | .file _ _ => True
  | .directory entries => (entries.map Prod.fst).Nodup ∧ AreTrees entries

def AreTrees : List (String × Node) → Prop
  | [] => True
  | (name, node) :: rest => IsEntryName name ∧ node.IsTree ∧ AreTrees rest

end

theorem AreTrees.of_lookup {entries : List (String × Node)} (trees : AreTrees entries)
    {name : String} {node : Node} (found : entries.lookup name = some node) :
    node.IsTree := by
  induction entries with
  | nil => simp at found
  | cons entry rest induction =>
      obtain ⟨first, inner⟩ := entry
      obtain ⟨_, tree, restTrees⟩ := trees
      rw [List.lookup_cons] at found
      split at found
      · obtain rfl := Option.some.inj found
        exact tree
      · exact induction restTrees found

theorem IsTree.of_get? {node found : Node} (tree : node.IsTree) {names : List String}
    (reached : node.get? names = some found) : found.IsTree := by
  induction names generalizing node with
  | nil =>
      rw [get?] at reached
      obtain rfl := Option.some.inj reached
      exact tree
  | cons name names induction =>
      cases node with
      | file content isExecutable => simp [get?] at reached
      | directory entries =>
          rw [get?] at reached
          split at reached
          · rename_i inner listed
            exact induction (tree.2.of_lookup listed) reached
          · cases reached

theorem areTrees_iff {entries : List (String × Node)} :
    AreTrees entries ↔ ∀ entry ∈ entries, IsEntryName entry.1 ∧ entry.2.IsTree := by
  induction entries with
  | nil => exact iff_of_true trivial (List.forall_mem_nil _)
  | cons entry rest induction =>
      rw [AreTrees, List.forall_mem_cons, induction, and_assoc]

theorem lookup_of_mem {entries : List (String × Node)} (distinct : (entries.map Prod.fst).Nodup)
    {entry : String × Node} (member : entry ∈ entries) :
    entries.lookup entry.1 = some entry.2 := by
  obtain ⟨before, after, rfl⟩ := List.append_of_mem member
  rw [List.lookup_eq_some_iff]
  refine ⟨before, after, rfl, ?_⟩
  intro earlier listed
  rw [bne_iff_ne]
  intro same
  rw [List.map_append, List.nodup_append] at distinct
  exact distinct.2.2 _ (List.mem_map_of_mem listed) _ (by simp) same.symm

/-- Only names of entries lead through a tree. -/
theorem IsTree.isEntryName_of_get? {node found : Node} (tree : node.IsTree) {names : List String}
    (reached : node.get? names = some found) : ∀ name ∈ names, IsEntryName name := by
  induction names generalizing node with
  | nil => exact List.forall_mem_nil _
  | cons name names induction =>
      cases node with
      | file content isExecutable => cases reached
      | directory entries =>
          rw [get?] at reached
          split at reached
          · rename_i inner looked
            obtain ⟨before, after, whole, _⟩ := List.lookup_eq_some_iff.1 looked
            have member : (name, inner) ∈ entries := by
              rw [whole]
              exact List.mem_append_right _ List.mem_cons_self
            obtain ⟨proper, innerTree⟩ := areTrees_iff.1 tree.2 _ member
            exact List.forall_mem_cons.2 ⟨proper, induction innerTree reached⟩
          · cases reached

end Node

/-- A file tree seen from an absolute directory. -/
structure Disk.IsSound (disk : Disk) : Prop where
  tree : disk.top.IsTree
  cwd : disk.cwd.isAbsolute = true

namespace Disk.IsSound

variable {disk : Disk}

theorem isPlace_absolute (sound : disk.IsSound) (path : Path) :
    (disk.absolute path).IsPlace :=
  Path.isPlace_absolutize sound.cwd

theorem isTree_node (sound : disk.IsSound) {path : Path} {node : Node}
    (found : disk.node path = .ok node) : node.IsTree := by
  unfold Disk.node at found
  cases located : disk.locate path with
  | error fault =>
      rw [located] at found
      cases found
  | ok place =>
      rw [located] at found
      simp only [bind, Except.bind] at found
      split at found
      · rename_i inner reached
        obtain rfl := Except.ok.inj found
        exact sound.tree.of_get? reached
      · cases found

end Disk.IsSound

end ElmAtlas
