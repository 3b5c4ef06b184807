import ElmAtlas.Proofs.Disk

/-!
# The order of listings

A host lists the entries of a directory in any order.  Two disks that differ in nothing
else have the same things at the same places, so every path leads to the same place on
both, and only the order of what a directory lists can tell them apart.
-/

namespace ElmAtlas

namespace Node

/-- Where names are distinct, their order does not matter for looking them up. -/
theorem lookup_eq_of_perm {entries others : List (String × Node)} (order : entries.Perm others)
    (distinct : (entries.map Prod.fst).Nodup) (name : String) :
    entries.lookup name = others.lookup name := by
  induction order with
  | nil => rfl
  | cons entry _ induction =>
      obtain ⟨_, rest⟩ := List.nodup_cons.1 distinct
      rw [List.lookup_cons, List.lookup_cons, induction rest]
  | swap first second rest =>
      obtain ⟨absent, _⟩ := List.nodup_cons.1 distinct
      have different : second.1 ≠ first.1 := by
        intro same
        apply absent
        rw [same]
        exact List.mem_cons_self
      rw [List.lookup_cons, List.lookup_cons, List.lookup_cons, List.lookup_cons]
      by_cases wanted : name = second.1
      · simp [wanted, beq_eq_false_iff_ne.2 different]
      · simp [beq_eq_false_iff_ne.2 wanted]
  | trans order _ first second =>
      rw [first distinct, second ((order.map Prod.fst).nodup_iff.1 distinct)]

/-- What two trees have at a place: nothing, the same file, or directories that list the
same names. -/
inductive Alike : Option Node → Option Node → Prop where
  | nothing : Alike none none
  | file (content : ByteArray) (isExecutable : Bool) :
      Alike (some (.file content isExecutable)) (some (.file content isExecutable))
  | directory {entries others : List (String × Node)}
      (names : (entries.map Prod.fst).Perm (others.map Prod.fst)) :
      Alike (some (.directory entries)) (some (.directory others))

/-- A tree whose directories list their entries in another order. -/
def Relists (node other : Node) : Prop :=
  ∀ place, Alike (node.get? place) (other.get? place)

namespace Relists

variable {node other : Node}

theorem refl (node : Node) : node.Relists node := by
  intro place
  cases node.get? place with
  | none => exact .nothing
  | some found =>
      cases found with
      | file content isExecutable => exact .file content isExecutable
      | directory entries => exact .directory (List.Perm.refl _)

/-- A directory may list its entries in another order, and so may the directories below it. -/
theorem directory {entries others : List (String × Node)}
    (names : (entries.map Prod.fst).Perm (others.map Prod.fst))
    (below : ∀ name, entries.lookup name = none ∧ others.lookup name = none ∨
      ∃ node other, entries.lookup name = some node ∧ others.lookup name = some other ∧
        node.Relists other) :
    (Node.directory entries).Relists (Node.directory others) := by
  intro place
  cases place with
  | nil => exact .directory names
  | cons name rest =>
      rw [get?, get?]
      rcases below name with ⟨missing, otherMissing⟩ | ⟨node, other, found, otherFound, relists⟩
      · rw [missing, otherMissing]
        exact .nothing
      · rw [found, otherFound]
        exact relists rest

/-- The entries of a directory in any other order. -/
theorem of_perm {entries others : List (String × Node)} (order : entries.Perm others)
    (distinct : (entries.map Prod.fst).Nodup) :
    (Node.directory entries).Relists (Node.directory others) := by
  apply directory (order.map Prod.fst)
  intro name
  rw [← lookup_eq_of_perm order distinct name]
  cases entries.lookup name with
  | none => exact .inl ⟨rfl, rfl⟩
  | some found => exact .inr ⟨found, found, rfl, rfl, refl found⟩

/-- Another order below the first entry of a directory. -/
theorem below_first (relists : node.Relists other) (name : String)
    (rest : List (String × Node)) :
    (Node.directory ((name, node) :: rest)).Relists (Node.directory ((name, other) :: rest)) := by
  apply directory
  · exact List.Perm.refl _
  · intro wanted
    rw [List.lookup_cons, List.lookup_cons]
    cases wanted == name with
    | true => exact .inr ⟨node, other, rfl, rfl, relists⟩
    | false =>
        cases rest.lookup wanted with
        | none => exact .inl ⟨rfl, rfl⟩
        | some found => exact .inr ⟨found, found, rfl, rfl, refl found⟩

end Relists

theorem Alike.isSome_eq {found other : Option Node} (alike : Alike found other) :
    other.isSome = found.isSome := by
  cases alike with
  | nothing => rfl
  | file content isExecutable => rfl
  | directory names => rfl

theorem isSome_lookup {top : Node} {place : List String} {entries : List (String × Node)}
    (found : top.get? place = some (.directory entries)) (name : String) :
    (entries.lookup name).isSome = (top.get? (place ++ [name])).isSome := by
  rw [get?_concat, found]
  rfl

end Node

namespace Disk

theorem isDirectory_eq (disk : Disk) (path : Path) :
    disk.isDirectory path =
      match (disk.node path).toOption with
      | some (.directory _) => true
      | _ => false := by
  unfold isDirectory
  cases disk.node path with
  | error fault => rfl
  | ok found => cases found <;> rfl

theorem entries_eq (disk : Disk) (path : Path) :
    disk.entries path =
      match (disk.node path).toOption with
      | some (.directory entries) => entries
      | _ => [] := by
  unfold entries
  cases disk.node path with
  | error fault => rfl
  | ok found => cases found <;> rfl

/-- A disk whose directories list their entries in another order. -/
structure Relists (disk other : Disk) : Prop where
  top : disk.top.Relists other.top
  cwd : other.cwd = disk.cwd

namespace Relists

variable {disk other : Disk}

/-- A walk looks at the entries of a directory by their names only. -/
theorem walk {top otherTop : Node} (relists : top.Relists otherTop) (place : List String)
    (steps : List Step) : Disk.walk otherTop place steps = Disk.walk top place steps := by
  induction steps generalizing place with
  | nil => rfl
  | cons step steps induction =>
      have alike := relists place
      rw [Disk.walk, Disk.walk]
      generalize here : top.get? place = found at alike
      generalize there : otherTop.get? place = otherFound at alike
      cases alike with
      | nothing => rfl
      | file content isExecutable => rfl
      | @directory entries others names =>
          cases step with
          | stay => exact induction place
          | up => exact induction place.dropLast
          | down name =>
              have listed : (others.lookup name).isSome = (entries.lookup name).isSome := by
                rw [Node.isSome_lookup here, Node.isSome_lookup there]
                exact (relists (place ++ [name])).isSome_eq
              simp only [listed, induction]

theorem locate (relists : disk.Relists other) (path : Path) :
    other.locate path = disk.locate path := by
  have start : other.start path = disk.start path := by
    rw [Disk.start, Disk.start, relists.cwd]
  rw [Disk.locate, Disk.locate, start, walk relists.top]

/-- What a path leads to is alike on both disks. -/
theorem node (relists : disk.Relists other) (path : Path) :
    Node.Alike (disk.node path).toOption (other.node path).toOption := by
  rw [Disk.node, Disk.node, relists.locate path]
  cases disk.locate path with
  | error fault => exact .nothing
  | ok place =>
      have alike := relists.top place
      simp only [bind, Except.bind]
      generalize disk.top.get? place = found at alike
      generalize other.top.get? place = otherFound at alike
      cases alike with
      | nothing => exact .nothing
      | file content isExecutable => exact .file content isExecutable
      | directory names => exact .directory names

/-- What a path leads to is listed in another order, too. -/
theorem exists_node (relists : disk.Relists other) {path : Path} {node : Node}
    (found : disk.node path = .ok node) :
    ∃ otherNode, other.node path = .ok otherNode ∧ node.Relists otherNode := by
  obtain ⟨place, located, reached⟩ := bind_eq_ok.1 found
  have here : disk.top.get? place = some node := by
    split at reached
    · rename_i inner looked
      rw [looked, Except.ok.inj reached]
    · cases reached
  have present := (relists.top place).isSome_eq
  rw [here] at present
  obtain ⟨otherNode, there⟩ := Option.isSome_iff_exists.1 present
  refine ⟨otherNode, ?_, ?_⟩
  · rw [Disk.node, relists.locate path, located]
    simp only [bind, Except.bind, there]
  · intro below
    have alike := relists.top (place ++ below)
    rw [Node.get?_append, Node.get?_append, here, there] at alike
    exact alike

theorem isDirectory (relists : disk.Relists other) (path : Path) :
    other.isDirectory path = disk.isDirectory path := by
  have alike := relists.node path
  rw [isDirectory_eq, isDirectory_eq]
  generalize (disk.node path).toOption = found at alike
  generalize (other.node path).toOption = otherFound at alike
  cases alike with
  | nothing => rfl
  | file content isExecutable => rfl
  | directory names => rfl

/-- A directory lists the same names on both disks. -/
theorem entries_perm (relists : disk.Relists other) (path : Path) :
    ((disk.entries path).map Prod.fst).Perm ((other.entries path).map Prod.fst) := by
  have alike := relists.node path
  rw [entries_eq, entries_eq]
  generalize (disk.node path).toOption = found at alike
  generalize (other.node path).toOption = otherFound at alike
  cases alike with
  | nothing => exact List.Perm.refl _
  | file content isExecutable => exact List.Perm.refl _
  | directory names => exact names

end Relists

end Disk

end ElmAtlas
