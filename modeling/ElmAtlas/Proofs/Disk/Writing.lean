import ElmAtlas.Proofs.Disk.Directories
import ElmAtlas.Proofs.Text.Octets

/-!
# Reading what was written

A file that was written under a path is read under the same path.  Writing it closes no
way: the directories that a walk passes are still there, since the slot of a file never
was one of them.  Whether a file can be written is settled by the disk and the path; the
content plays no part.
-/

namespace ElmAtlas.Disk

theorem walk_append (top : Node) (place : List String) (front behind : List Step) :
    walk top place (front ++ behind) =
      walk top place front >>= fun found => walk top found behind := by
  induction front generalizing place with
  | nil => rfl
  | cons step front induction =>
      rw [List.cons_append, walk, walk]
      split
      · cases step with
        | stay => exact induction place
        | up => exact induction place.dropLast
        | down name =>
            dsimp only
            split
            · rfl
            · split
              · exact induction (place ++ [name])
              · rfl
      · rfl
      · rfl

/-- A walk also succeeds where there is more and what was a directory still is one. -/
private theorem walk_mono {before after : Node}
    (directories : ∀ place, before.sight? place = some .directory →
      after.sight? place = some .directory)
    (present : ∀ place, (before.sight? place).isSome = true →
      (after.sight? place).isSome = true)
    {steps : List Step} {place found : List String}
    (walked : walk before place steps = .ok found) : walk after place steps = .ok found := by
  induction steps generalizing place with
  | nil => exact walked
  | cons step steps induction =>
      obtain ⟨here, further⟩ := walk_cons_eq_ok walked
      obtain ⟨entries, still⟩ :=
        Node.sight?_eq_directory.1 (directories place (Node.sight?_eq_directory.2 here))
      cases step with
      | stay =>
          rw [walk, still]
          exact induction further
      | up =>
          rw [walk, still]
          exact induction further
      | down name =>
          obtain ⟨short, inside, _⟩ := walk_down_cons.1 walked
          have seen := present (place ++ [name])
          simp only [Node.sight?, Option.isSome_map] at seen
          exact walk_down_cons.2 ⟨short, seen inside, induction further⟩

/-- Whether there is a file at a place that may be run. -/
def mayRun (top : Node) (place : List String) : Bool :=
  match top.get? place with
  | some (.file _ isExecutable) => isExecutable
  | _ => false

/-- Where a file would be written under a path: the directory is there, and the slot is
no directory itself. -/
structure HasFileSlot (disk : Disk) (path : Path) (place : List String) (name : String) :
    Prop where
  told : checkPath path = .ok ()
  bare : Path.mk (String.ofList (path.text.toList.reverse.dropWhile (· == '/')).reverse) = path
  slot : disk.slot path path.steps = .ok (some (place, name))
  free : ∀ entries, disk.top.get? (place ++ [name]) ≠ some (.directory entries)

variable {disk after : Disk} {path : Path} {place : List String} {name : String}
variable {content : ByteArray}

private theorem HasFileSlot.isLeaf (slot : disk.HasFileSlot path place name) {inner : Node}
    (found : disk.top.get? (place ++ [name]) = some inner) : inner.IsLeaf := by
  cases inner with
  | file content isExecutable => exact Node.isLeaf_file content isExecutable
  | directory entries => exact absurd found (slot.free entries)

theorem HasFileSlot.writeFile_eq (slot : disk.HasFileSlot path place name)
    (content : ByteArray) :
    disk.writeFile path content = .ok { disk with
      top := (Node.file content (mayRun disk.top (place ++ [name]))).put
        (place ++ [name]) disk.top } := by
  unfold writeFile
  rw [slot.told, mayRun]
  simp only [bind, Except.bind, slot.bare, bne_self_eq_false, Bool.false_eq_true, if_false,
    slot.slot]
  cases found : disk.top.get? (place ++ [name]) with
  | none => rfl
  | some inner =>
      cases inner with
      | file old isExecutable => rfl
      | directory entries => exact absurd found (slot.free entries)

theorem exists_hasFileSlot (written : disk.writeFile path content = .ok after) :
    ∃ place name, disk.HasFileSlot path place name := by
  unfold writeFile at written
  obtain ⟨_, told, goesOn⟩ := bind_eq_ok.1 written
  dsimp only at goesOn
  split at goesOn
  · obtain ⟨_, _, refused⟩ := bind_eq_ok.1 goesOn
    cases refused
  · rename_i bare
    obtain ⟨found, slot, put⟩ := bind_eq_ok.1 goesOn
    split at put
    · cases put
    · rename_i place name
      refine ⟨place, name, told, by simpa using bare, slot, ?_⟩
      intro entries directory
      rw [directory] at put
      cases put

/-- A path that one file can be written under takes any other as well. -/
theorem exists_writeFile (written : disk.writeFile path content = .ok after)
    (other : ByteArray) : ∃ changed, disk.writeFile path other = .ok changed := by
  obtain ⟨place, name, slot⟩ := exists_hasFileSlot written
  exact ⟨_, slot.writeFile_eq other⟩

namespace HasFileSlot

variable (slot : disk.HasFileSlot path place name) (content : ByteArray) (isExecutable : Bool)

include slot

theorem sight?_put (other : List String) :
    ((Node.file content isExecutable).put (place ++ [name]) disk.top).sight? other =
      if other = place ++ [name] then some (.file content isExecutable)
      else disk.top.sight? other := by
  obtain ⟨_, front, _, walked⟩ := walk_of_slot slot.slot
  obtain ⟨entries, above⟩ := walk_stays walked
  exact Node.sight?_put above (Node.isLeaf_file content isExecutable) (fun _ => slot.isLeaf) other

theorem get?_put :
    ((Node.file content isExecutable).put (place ++ [name]) disk.top).get? (place ++ [name]) =
      some (.file content isExecutable) := by
  rw [← Node.sight?_eq_file, slot.sight?_put, if_pos rfl]

/-- The path leads to its slot when there is a file. -/
private theorem locate_put :
    ({ disk with
      top := (Node.file content isExecutable).put (place ++ [name]) disk.top } : Disk).locate path =
      .ok (place ++ [name]) := by
  obtain ⟨short, front, steps, walked⟩ := walk_of_slot slot.slot
  have seen := slot.sight?_put content isExecutable
  have found := slot.get?_put content isExecutable
  generalize (Node.file content isExecutable).put (place ++ [name]) disk.top = changed at *
  have directories : ∀ other, disk.top.sight? other = some .directory →
      changed.sight? other = some .directory := by
    intro other directory
    rw [seen, if_neg]
    · exact directory
    · rintro rfl
      obtain ⟨entries, inside⟩ := Node.sight?_eq_directory.1 directory
      exact slot.free entries inside
  have present : ∀ other, (disk.top.sight? other).isSome = true →
      (changed.sight? other).isSome = true := by
    intro other visible
    rw [seen]
    split
    · rfl
    · exact visible
  rw [walk_append] at walked
  obtain ⟨reached, way, stays⟩ := bind_eq_ok.1 walked
  obtain rfl : reached = place := Except.ok.inj (walk_cons_eq_ok stays).2
  have arrived : walk changed reached [.down name] = .ok (reached ++ [name]) :=
    walk_down_cons.2 ⟨short, by rw [found]; rfl, rfl⟩
  have whole : walk changed (disk.start path) (front ++ [.down name]) =
      .ok (reached ++ [name]) := by
    rw [walk_append]
    exact bind_eq_ok.2 ⟨reached, walk_mono directories present way, arrived⟩
  rw [locate, slot.told, steps]
  exact whole

end HasFileSlot

theorem read_writeFile (written : disk.writeFile path content = .ok after) :
    after.read path = .ok content := by
  obtain ⟨place, name, slot⟩ := exists_hasFileSlot written
  rw [slot.writeFile_eq] at written
  obtain rfl := Except.ok.inj written
  rw [read, node, slot.locate_put]
  simp only [bind, Except.bind, slot.get?_put]

/-- A text that was written is read again. -/
theorem readText_writeFile {text : String}
    (written : disk.writeFile path text.toUTF8 = .ok after) : after.readText path = .ok text := by
  have decoded : String.fromUTF8? text.toUTF8 = some text := by
    have whole := Octets.fromUTF8?_encoded text.toList
    rwa [← Octets.toUTF8_ofList, String.ofList_toList] at whole
  rw [readText, read_writeFile written]
  simp only [bind, Except.bind, decoded]

end ElmAtlas.Disk
