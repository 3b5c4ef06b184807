import ElmAtlas.Proofs.Path.Order
import ElmAtlas.Proofs.Workspace.Walk

/-!
# What discovery finds

In a file tree the entries of a directory have different names, and no name holds
a separator.  A discovery therefore meets each manifest once, and it tells where a
manifest lies by a place: the root of the discovery, the names of the directories
on the way and the file name of a schema.
-/

namespace ElmAtlas

namespace Discovery

/-- The names that lead to a manifest below a directory. -/
def LeadsToManifest (place : List String) : Prop :=
  ∃ (between : List String) (schema : Schema),
    (∀ name ∈ between, IsEntryName name) ∧ place = between ++ [schema.fileName]

namespace LeadsToManifest

variable {place : List String}

theorem isEntryName (leads : LeadsToManifest place) : ∀ name ∈ place, IsEntryName name := by
  obtain ⟨between, schema, proper, rfl⟩ := leads
  intro name listed
  rcases List.mem_append.1 listed with inside | last
  · exact proper name inside
  · rw [List.mem_singleton.1 last]
    exact schema.isEntryName_fileName

theorem ne_nil (leads : LeadsToManifest place) : place ≠ [] := by
  obtain ⟨between, schema, _, rfl⟩ := leads
  simp

theorem here (schema : Schema) : LeadsToManifest [schema.fileName] :=
  ⟨[], schema, List.forall_mem_nil _, rfl⟩

theorem cons {name : String} (proper : IsEntryName name) (leads : LeadsToManifest place) :
    LeadsToManifest (name :: place) := by
  obtain ⟨between, schema, betweenProper, rfl⟩ := leads
  exact ⟨name :: between, schema, List.forall_mem_cons.2 ⟨proper, betweenProper⟩, rfl⟩

end LeadsToManifest

/-- The manifests that a walk of a tree lists are at such places. -/
theorem exists_place_of_mem_manifestsAt {root manifest : Path}
    {entries : List (String × Node)} (tree : (Node.directory entries).IsTree)
    (listed : manifest ∈ manifestsAt root (.directory entries)) :
    ∃ place, LeadsToManifest place ∧ manifest = place.foldl Path.child root := by
  obtain ⟨names, inside, reaches, chosen⟩ := (mem_manifestsAt tree).1 listed
  obtain ⟨schema, _, rfl⟩ := exists_schema_of_manifestIn? chosen
  refine ⟨names ++ [schema.fileName], ?_, ?_⟩
  · exact ⟨names, schema, fun name member => (reaches.1 name member).1, rfl⟩
  · rw [List.foldl_append, List.foldl_cons, List.foldl_nil]

/-- Discovery lists places, each once. -/
theorem candidates_places {disk : Disk} (sound : disk.IsSound) {root : Path}
    (place : root.IsPlace) :
    (candidates disk root).Nodup ∧ ∀ candidate ∈ candidates disk root, candidate.IsPlace := by
  unfold candidates
  split
  · rename_i node found
    have order := List.mergeSort_perm (manifestsAt root node) fun left right =>
      !right.comesBefore left
    refine ⟨order.nodup_iff.2 (nodup_manifestsAt root node), ?_⟩
    intro candidate member
    have listed := order.mem_iff.1 member
    cases node with
    | file content isExecutable =>
        obtain rfl := List.mem_singleton.1 (mem_filesAt_of_mem_manifestsAt listed)
        exact place
    | directory entries =>
        obtain ⟨below, leads, rfl⟩ :=
          exists_place_of_mem_manifestsAt (sound.isTree_node found) listed
        obtain ⟨names, proper, rfl⟩ := place
        refine ⟨names ++ below, ?_, Path.foldl_child_ofNames proper leads.isEntryName⟩
        simpa [or_imp, forall_and] using ⟨proper, leads.isEntryName⟩
  · exact ⟨by simp, by simp⟩

/-- Discovery lists manifests in the order of their paths. -/
theorem candidates_ascend {disk : Disk} (sound : disk.IsSound) {root : Path}
    {entries : List (String × Node)} (top : disk.node root = .ok (.directory entries)) :
    (candidates disk root).Pairwise fun left right => left.comesBefore right = true := by
  have tree := sound.isTree_node top
  have apart : (manifestsAt root (.directory entries)).Pairwise fun left right =>
      left.components ≠ right.components := by
    refine (nodup_manifestsAt root _).imp_of_mem ?_
    intro left right leftListed rightListed different same
    obtain ⟨leftPlace, leftLeads, rfl⟩ := exists_place_of_mem_manifestsAt tree leftListed
    obtain ⟨rightPlace, rightLeads, rfl⟩ := exists_place_of_mem_manifestsAt tree rightListed
    rw [Path.components_foldl_child root leftLeads.isEntryName,
      Path.components_foldl_child root rightLeads.isEntryName] at same
    obtain rfl := List.map_injective_iff.2 (fun _ _ => Component.name.inj)
      (List.append_cancel_left same)
    exact different rfl
  have order := List.mergeSort_perm (manifestsAt root (.directory entries)) fun left right =>
    !right.comesBefore left
  simp only [candidates, top]
  have sorted := Path.pairwise_mergeSort_comesBefore (manifestsAt root (.directory entries))
  refine ((order.pairwise_iff fun different => Ne.symm different).2 apart).and sorted |>.imp ?_
  intro left right facts
  obtain ⟨different, ordered⟩ := facts
  rw [← Bool.not_eq_false]
  intro unordered
  exact different (Path.eq_of_not_componentsBefore unordered ordered)

end Discovery

end ElmAtlas
