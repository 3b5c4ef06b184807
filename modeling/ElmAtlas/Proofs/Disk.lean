import ElmAtlas.Disk
import ElmAtlas.Proofs.Outcome
import ElmAtlas.Proofs.Path.Place

/-!
# Looking up places

The walk to a place goes down its names.  It arrives exactly if the tree has something
there, no name is longer than the host allows and the path as a whole can be told to
the host.
-/

namespace ElmAtlas

namespace Node

theorem get?_append (node : Node) (front behind : List String) :
    node.get? (front ++ behind) = (node.get? front).bind (·.get? behind) := by
  induction front generalizing node with
  | nil => rfl
  | cons name front induction =>
      cases node with
      | file content isExecutable => rfl
      | directory entries =>
          simp only [List.cons_append, get?]
          cases entries.lookup name with
          | none => rfl
          | some inner => exact induction inner

theorem get?_concat (node : Node) (place : List String) (name : String) :
    node.get? (place ++ [name]) =
      (node.get? place).bind fun found =>
        match found with
        | .directory entries => entries.lookup name
        | .file _ _ => none := by
  rw [get?_append]
  congr 1
  funext found
  cases found with
  | file content isExecutable => rfl
  | directory entries =>
      simp only [get?]
      cases entries.lookup name <;> rfl

end Node

namespace Path

theorem steps_ofNames {names : List String} (proper : ∀ name ∈ names, IsEntryName name) :
    (ofNames names).steps = .stay :: (if names = [] then [.stay] else names.map .down) := by
  rw [steps, pieces_ofNames proper]
  by_cases top : names = []
  · subst top
    rfl
  · rw [if_neg top, if_neg top, List.map_cons, List.map_map]
    refine congrArg (Step.stay :: ·) (List.map_congr_left fun name listed => ?_)
    have entry := proper name listed
    have nonempty : name.toList ≠ [] := by
      simpa using entry.nonempty
    have notCurrent : name.toList ≠ ['.'] := fun same =>
      entry.notCurrent (String.toList_injective same)
    have notParent : name.toList ≠ ['.', '.'] := fun same =>
      entry.notParent (String.toList_injective same)
    simp [nonempty, notCurrent, notParent]

theorem foldl_child_ofNames {names below : List String}
    (proper : ∀ name ∈ names, IsEntryName name) (belowProper : ∀ name ∈ below, IsEntryName name) :
    below.foldl child (ofNames names) = ofNames (names ++ below) := by
  induction below generalizing names with
  | nil => rw [List.append_nil, List.foldl_nil]
  | cons name below induction =>
      obtain ⟨first, rest⟩ := List.forall_mem_cons.1 belowProper
      have longer : ∀ other ∈ names ++ [name], IsEntryName other := by
        simpa [or_imp, forall_and] using ⟨proper, first⟩
      rw [List.foldl_cons, child_ofNames proper first, induction longer rest,
        List.append_assoc, List.singleton_append]

end Path

namespace Disk

theorem walk_down_cons {top : Node} {place found : List String} {name : String}
    {steps : List Step} :
    walk top place (.down name :: steps) = .ok found ↔
      name.utf8ByteSize ≤ nameLimit ∧ (top.get? (place ++ [name])).isSome = true ∧
      walk top (place ++ [name]) steps = .ok found := by
  rw [walk, Node.get?_concat]
  cases top.get? place with
  | none => simp
  | some node =>
      cases node with
      | file content isExecutable => simp
      | directory entries =>
          by_cases long : nameLimit < name.utf8ByteSize
          · simp [long, Nat.not_le.2 long]
          · have short := Nat.not_lt.1 long
            cases looked : entries.lookup name with
            | none => simp [long, looked]
            | some inner => simp [long, short, looked]

/-- A walk down names arrives below the place where it began. -/
private theorem walk_down {top : Node} {place names found : List String} :
    walk top place (names.map .down) = .ok found ↔
      found = place ++ names ∧ (∀ name ∈ names, name.utf8ByteSize ≤ nameLimit) ∧
      (names = [] ∨ (top.get? (place ++ names)).isSome = true) := by
  induction names generalizing place with
  | nil =>
      rw [List.map_nil, walk, Except.ok.injEq, List.append_nil]
      constructor
      · rintro rfl
        exact ⟨rfl, by simp, .inl rfl⟩
      · rintro ⟨rfl, _⟩
        rfl
  | cons name names induction =>
      have further : place ++ name :: names = place ++ [name] ++ names := by
        rw [List.append_assoc, List.singleton_append]
      rw [List.map_cons, walk_down_cons, induction, further, List.forall_mem_cons]
      constructor
      · rintro ⟨short, present, arrived, restShort, reached⟩
        refine ⟨arrived, ⟨short, restShort⟩, .inr ?_⟩
        rcases reached with rfl | reached
        · rwa [List.append_nil]
        · exact reached
      · rintro ⟨arrived, ⟨short, restShort⟩, reached⟩
        have whole := reached.resolve_left (by simp)
        have present : (top.get? (place ++ [name])).isSome = true := by
          rw [Node.get?_append] at whole
          exact Option.isSome_of_isSome_bind whole
        exact ⟨short, present, arrived, restShort, .inr whole⟩

theorem isFile_iff {disk : Disk} {path : Path} :
    disk.isFile path = true ↔
      ∃ content isExecutable, disk.node path = .ok (.file content isExecutable) := by
  unfold isFile
  split
  · rename_i content isExecutable found
    simp [found]
  · rename_i other
    simpa using other

theorem isDirectory_iff {disk : Disk} {path : Path} :
    disk.isDirectory path = true ↔ ∃ entries, disk.node path = .ok (.directory entries) := by
  unfold isDirectory
  split
  · rename_i entries found
    simp [found]
  · rename_i other
    simpa using other

variable {disk : Disk} {names : List String}

/-- The first piece of a place is empty and needs a directory at the top. -/
theorem locate_ofNames (proper : ∀ name ∈ names, IsEntryName name) {place : List String} :
    disk.locate (Path.ofNames names) = .ok place ↔
      checkPath (Path.ofNames names) = .ok () ∧
      (∀ name ∈ names, name.utf8ByteSize ≤ nameLimit) ∧
      (∃ entries, disk.top = .directory entries) ∧
      (disk.top.get? names).isSome = true ∧ place = names := by
  have start : disk.start (Path.ofNames names) = [] := by
    rw [start, if_pos (Path.isAbsolute_ofNames names)]
  rw [locate, bind_eq_ok, start, Path.steps_ofNames proper, walk, Node.get?]
  cases top : disk.top with
  | file content isExecutable => simp
  | directory entries =>
      have onwards : walk (.directory entries) []
          (if names = [] then [.stay] else names.map .down) = .ok place ↔
          (∀ name ∈ names, name.utf8ByteSize ≤ nameLimit) ∧
          ((Node.directory entries).get? names).isSome = true ∧ place = names := by
        by_cases top : names = []
        · subst top
          simp [walk, Node.get?, eq_comm]
        · rw [if_neg top, walk_down, or_iff_right top, List.nil_append]
          exact ⟨fun ⟨same, short, present⟩ => ⟨short, present, same⟩,
            fun ⟨short, present, same⟩ => ⟨same, short, present⟩⟩
      constructor
      · rintro ⟨⟨⟩, told, arrived⟩
        obtain ⟨short, present, same⟩ := onwards.1 arrived
        exact ⟨told, short, ⟨entries, rfl⟩, present, same⟩
      · rintro ⟨told, short, _, present, same⟩
        exact ⟨(), told, onwards.2 ⟨short, present, same⟩⟩

/-- What the disk has at a place. -/
theorem node_ofNames (proper : ∀ name ∈ names, IsEntryName name) {node : Node} :
    disk.node (Path.ofNames names) = .ok node ↔
      checkPath (Path.ofNames names) = .ok () ∧
      (∀ name ∈ names, name.utf8ByteSize ≤ nameLimit) ∧
      (∃ entries, disk.top = .directory entries) ∧ disk.top.get? names = some node := by
  rw [Disk.node, bind_eq_ok]
  constructor
  · rintro ⟨place, located, found⟩
    obtain ⟨told, short, directory, present, rfl⟩ := (locate_ofNames proper).1 located
    refine ⟨told, short, directory, ?_⟩
    split at found
    · rename_i reached
      rw [reached, Except.ok.inj found]
    · cases found
  · rintro ⟨told, short, directory, reached⟩
    have present : (disk.top.get? names).isSome = true := by
      rw [reached]
      rfl
    refine ⟨names, (locate_ofNames proper).2 ⟨told, short, directory, present, rfl⟩, ?_⟩
    rw [reached]

end Disk

end ElmAtlas
