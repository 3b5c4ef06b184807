import ElmAtlas.Proofs.Disk.Listing
import ElmAtlas.Proofs.Workspace.DirectoryAttachment

/-!
# The manifests below a root

A manifest counts if it is a file with the name of a current manifest, or with the name
of a legacy one where no current manifest stands beside it.  Discovery lists exactly the
manifests that count and to which no skipped directory leads; the root itself may have
any name.  They are told by the tree alone, so the order in which directories list their
entries makes no difference.
-/

namespace ElmAtlas

namespace Node

theorem Relists.lookup {entries others : List (String × Node)}
    (relists : (Node.directory entries).Relists (Node.directory others)) {name : String}
    {other : Node} (found : others.lookup name = some other) :
    ∃ node, entries.lookup name = some node ∧ node.Relists other := by
  have present := (relists [name]).isSome_eq
  simp only [get?, found] at present
  cases looked : entries.lookup name with
  | none => simp [looked] at present
  | some node =>
      refine ⟨node, rfl, ?_⟩
      intro place
      have alike := relists (name :: place)
      rw [get?, get?, looked, found] at alike
      exact alike

mutual

/-- Another order leaves a tree a tree. -/
theorem Relists.isTree {node : Node} (other : Node) (relists : node.Relists other)
    (tree : node.IsTree) : other.IsTree := by
  cases other with
  | file content isExecutable => trivial
  | directory others =>
      have alike := relists []
      rw [get?, get?] at alike
      cases alike with
      | @directory entries _ names =>
          have distinct : (others.map Prod.fst).Nodup := names.nodup_iff.1 tree.1
          refine ⟨distinct, areTrees_of_relists others ?_⟩
          intro entry member
          -- The tree has an entry of this name, too, and lists it in another order at most.
          have listed : entry.1 ∈ entries.map Prod.fst :=
            names.mem_iff.2 (List.mem_map_of_mem member)
          obtain ⟨own, ownListed, sameName⟩ := List.mem_map.1 listed
          obtain ⟨inner, looked, below⟩ := relists.lookup (lookup_of_mem distinct member)
          rw [← sameName]
          exact ⟨(areTrees_iff.1 tree.2 own ownListed).1, inner, below, tree.2.of_lookup looked⟩

theorem areTrees_of_relists (others : List (String × Node))
    (members : ∀ entry ∈ others, IsEntryName entry.1 ∧
      ∃ node : Node, node.Relists entry.2 ∧ node.IsTree) : AreTrees others := by
  cases others with
  | nil => trivial
  | cons entry rest =>
      obtain ⟨⟨proper, node, relists, tree⟩, restMembers⟩ := List.forall_mem_cons.1 members
      exact ⟨proper, relists.isTree entry.2 tree, areTrees_of_relists rest restMembers⟩

end

end Node

theorem Disk.Relists.isSound {disk other : Disk} (relists : disk.Relists other)
    (sound : disk.IsSound) : other.IsSound := by
  constructor
  · exact relists.top.isTree _ sound.tree
  · rw [relists.cwd]
    exact sound.cwd

namespace Discovery

/-- A file lies at a place of a tree. -/
def IsFileAt (node : Node) (place : List String) : Prop :=
  ∃ content isExecutable, node.get? place = some (.file content isExecutable)

/-- A name of directories that discovery visits. -/
structure IsVisible (name : String) : Prop where
  notHidden : name.toList.head? ≠ some '.'
  notBuilt : name ≠ "elm-stuff"
  notInstalled : name ≠ "node_modules"

/-- A manifest that counts, at a place to which only visible directories lead. -/
inductive IsManifest (node : Node) : List String → Prop where
  | current {names : List String} (visible : ∀ name ∈ names, IsVisible name)
      (file : IsFileAt node (names ++ ["elm.json"])) :
      IsManifest node (names ++ ["elm.json"])
  | legacy {names : List String} (visible : ∀ name ∈ names, IsVisible name)
      (file : IsFileAt node (names ++ ["elm-package.json"]))
      (alone : ¬IsFileAt node (names ++ ["elm.json"])) :
      IsManifest node (names ++ ["elm-package.json"])

theorem isSkipped_eq_false {name : String} : isSkipped name = false ↔ IsVisible name := by
  unfold isSkipped
  constructor
  · intro unskipped
    simp only [Bool.or_eq_false_iff, beq_eq_false_iff_ne] at unskipped
    exact ⟨unskipped.1.1, unskipped.1.2, unskipped.2⟩
  · intro visible
    simp [visible.notHidden, visible.notBuilt, visible.notInstalled]

theorem hasFile_eq_true {node : Node} {names : List String} {entries : List (String × Node)}
    (reached : node.get? names = some (.directory entries)) {name : String} :
    hasFile entries name = true ↔ IsFileAt node (names ++ [name]) := by
  have looked : node.get? (names ++ [name]) = entries.lookup name := by
    rw [Node.get?_concat, reached, Option.bind_some]
  rw [IsFileAt, looked, hasFile]
  cases entries.lookup name with
  | none => simp
  | some found => cases found <;> simp [isFile]

/-- The entries of a directory that hold a file at a place. -/
private theorem exists_entries_of_isFileAt {node : Node} {names : List String} {name : String}
    (file : IsFileAt node (names ++ [name])) :
    ∃ entries, node.get? names = some (.directory entries) := by
  obtain ⟨content, isExecutable, reached⟩ := file
  rw [Node.get?_concat] at reached
  obtain ⟨found, above, inside⟩ := Option.bind_eq_some_iff.1 reached
  cases found with
  | file _ _ => cases inside
  | directory entries => exact ⟨entries, above⟩

variable {disk : Disk} {root : Path} {entries : List (String × Node)}

/-- Discovery finds the manifests that count. -/
theorem mem_candidates_iff (sound : disk.IsSound)
    (top : disk.node root = .ok (.directory entries)) {path : Path} :
    path ∈ candidates disk root ↔
      ∃ place, IsManifest (.directory entries) place ∧ path = place.foldl Path.child root := by
  have tree := sound.isTree_node top
  have below (names : List String) (name : String) :
      (names ++ [name]).foldl Path.child root = (names.foldl Path.child root).child name := by
    rw [List.foldl_append, List.foldl_cons, List.foldl_nil]
  rw [mem_candidates sound top]
  constructor
  · intro found
    obtain ⟨names, inside, ⟨unskipped, reached⟩, chosen⟩ := found
    have visible : ∀ name ∈ names, IsVisible name := by
      intro name listed
      exact isSkipped_eq_false.1 (unskipped name listed).2
    rcases manifestIn?_eq_some.1 chosen with ⟨file, rfl⟩ | ⟨file, alone, rfl⟩
    · exact ⟨_, .current visible ((hasFile_eq_true reached).1 file), (below _ _).symm⟩
    · refine ⟨_, .legacy visible ((hasFile_eq_true reached).1 file) ?_, (below _ _).symm⟩
      rw [← hasFile_eq_true reached, alone]
      exact Bool.false_ne_true
  · have reaches {names : List String} {name : String}
        (visible : ∀ name ∈ names, IsVisible name)
        (file : IsFileAt (.directory entries) (names ++ [name])) :
        ∃ inside, Reaches (.directory entries) names inside := by
      obtain ⟨inside, reached⟩ := exists_entries_of_isFileAt file
      refine ⟨inside, ?_, reached⟩
      intro other listed
      exact ⟨tree.isEntryName_of_get? reached other listed,
        isSkipped_eq_false.2 (visible other listed)⟩
    intro found
    obtain ⟨place, manifest, rfl⟩ := found
    cases manifest with
    | current visible file =>
        obtain ⟨inside, reaches⟩ := reaches visible file
        refine ⟨_, inside, reaches, manifestIn?_eq_some.2 (.inl ⟨?_, below _ _⟩)⟩
        exact (hasFile_eq_true reaches.2).2 file
    | legacy visible file alone =>
        obtain ⟨inside, reaches⟩ := reaches visible file
        refine ⟨_, inside, reaches, manifestIn?_eq_some.2 (.inr ⟨?_, ?_, below _ _⟩)⟩
        · exact (hasFile_eq_true reaches.2).2 file
        · rw [← Bool.not_eq_true, hasFile_eq_true reaches.2]
          exact alone

/-- A place whose manifest counts is told by its directory. -/
private theorem IsManifest.eq_of_dropLast {node : Node} {left right : List String}
    (leftManifest : IsManifest node left) (rightManifest : IsManifest node right)
    (same : left.dropLast = right.dropLast) : left = right := by
  cases leftManifest with
  | current leftVisible leftFile =>
      cases rightManifest with
      | current => simpa using same
      | legacy _ _ alone =>
          simp only [List.dropLast_concat] at same
          rw [same] at leftFile
          exact absurd leftFile alone
  | legacy _ _ alone =>
      cases rightManifest with
      | current rightVisible rightFile =>
          simp only [List.dropLast_concat] at same
          rw [← same] at rightFile
          exact absurd rightFile alone
      | legacy => simpa using same

theorem IsManifest.ne_nil {node : Node} {place : List String}
    (manifest : IsManifest node place) : place ≠ [] := by
  cases manifest <;> simp

theorem IsManifest.isEntryName {node : Node} (tree : node.IsTree) {place : List String}
    (manifest : IsManifest node place) : ∀ name ∈ place, IsEntryName name := by
  have file : IsFileAt node place := by
    cases manifest with
    | current _ file => exact file
    | legacy _ file _ => exact file
  obtain ⟨content, isExecutable, reached⟩ := file
  exact tree.isEntryName_of_get? reached

theorem isFileAt_of_relists {node other : Node} (relists : node.Relists other)
    (place : List String) : IsFileAt other place ↔ IsFileAt node place := by
  have alike := relists place
  rw [IsFileAt, IsFileAt]
  generalize node.get? place = found at alike
  generalize other.get? place = otherFound at alike
  cases alike with
  | nothing => exact Iff.rfl
  | file content isExecutable => exact Iff.rfl
  | directory names => simp

theorem isManifest_of_relists {node other : Node} (relists : node.Relists other)
    {place : List String} : IsManifest other place ↔ IsManifest node place := by
  have files := isFileAt_of_relists relists
  constructor
  · intro manifest
    cases manifest with
    | current visible file => exact .current visible ((files _).1 file)
    | legacy visible file alone =>
        exact .legacy visible ((files _).1 file) fun beside => alone ((files _).2 beside)
  · intro manifest
    cases manifest with
    | current visible file => exact .current visible ((files _).2 file)
    | legacy visible file alone =>
        exact .legacy visible ((files _).2 file) fun beside => alone ((files _).1 beside)

/-- Discovery lists the manifests that count and to which only visible directories lead, in
strictly ascending order of their paths.  There is one in a directory at most, and the order
in which directories list their entries makes no difference. -/
theorem candidates_exact {disk : Disk} (sound : disk.IsSound) {root : Path}
    {entries : List (String × Node)} (top : disk.node root = .ok (.directory entries)) :
    ((candidates disk root).Pairwise fun left right => left.comesBefore right = true) ∧
    (∀ path, path ∈ candidates disk root ↔
      ∃ place, IsManifest (.directory entries) place ∧ path = place.foldl Path.child root) ∧
    (∀ left ∈ candidates disk root, ∀ right ∈ candidates disk root,
      left.components.dropLast = right.components.dropLast → left = right) ∧
    ∀ other, disk.Relists other → candidates other root = candidates disk root := by
  refine ⟨candidates_ascend sound top, fun path => mem_candidates_iff sound top, ?_, ?_⟩
  · intro left leftListed right rightListed same
    obtain ⟨leftPlace, leftManifest, rfl⟩ := (mem_candidates_iff sound top).1 leftListed
    obtain ⟨rightPlace, rightManifest, rfl⟩ := (mem_candidates_iff sound top).1 rightListed
    have tree := sound.isTree_node top
    rw [Path.components_foldl_child root (leftManifest.isEntryName tree),
      Path.components_foldl_child root (rightManifest.isEntryName tree),
      List.dropLast_append_of_ne_nil (by simpa using leftManifest.ne_nil),
      List.dropLast_append_of_ne_nil (by simpa using rightManifest.ne_nil),
      ← List.map_dropLast, ← List.map_dropLast] at same
    -- What is left of both paths are the names of one directory.
    have names := List.map_injective_iff.2 (fun _ _ => Component.name.inj)
      (List.append_cancel_left same)
    rw [leftManifest.eq_of_dropLast rightManifest names]
  · intro other relists
    obtain ⟨otherNode, otherTop, below⟩ := relists.exists_node top
    have alike := below []
    rw [Node.get?, Node.get?] at alike
    cases alike with
    | @directory _ others names =>
        have otherSound := relists.isSound sound
        apply Workspace.eq_of_ascend_of_mem_iff id
        · exact candidates_ascend otherSound otherTop
        · exact candidates_ascend sound top
        · intro path
          rw [mem_candidates_iff otherSound otherTop, mem_candidates_iff sound top]
          simp only [isManifest_of_relists below]

/-- A hidden directory as the root and the working directory. -/
def hiddenDisk (entries : List (String × Node)) : Disk :=
  ⟨.directory [(".w", .directory entries)], ⟨"/.w"⟩⟩

/-- A directory with both manifests, one with a directory that is named like a manifest,
and two that are skipped. -/
def hiddenEntries : List (String × Node) :=
  let manifest := .file ByteArray.empty false
  [("b", .directory [("elm-package.json", manifest), ("elm.json", manifest)]),
    ("a", .directory [("elm.json", .directory [("elm.json", manifest)]),
      ("elm-package.json", manifest)]),
    (".git", .directory [("elm.json", manifest)]),
    ("elm-stuff", .directory [("elm.json", manifest)])]

private theorem hiddenDisk_isSound : (hiddenDisk hiddenEntries).IsSound := by
  have absolute : (Path.mk "/.w").isAbsolute = true := by decide
  refine ⟨?_, absolute⟩
  simp only [hiddenDisk, hiddenEntries, Node.IsTree, Node.AreTrees]
  decide

theorem candidates_exact_hidden :
    (hiddenDisk hiddenEntries).IsSound ∧
    (hiddenDisk hiddenEntries).isDirectory ⟨"../.w/"⟩ = true ∧
    candidates (hiddenDisk hiddenEntries) ⟨"../.w/"⟩ =
      [⟨"../.w/a/elm-package.json"⟩, ⟨"../.w/a/elm.json/elm.json"⟩, ⟨"../.w/b/elm.json"⟩] ∧
    candidates (hiddenDisk hiddenEntries.reverse) ⟨"../.w/"⟩ =
      [⟨"../.w/a/elm-package.json"⟩, ⟨"../.w/a/elm.json/elm.json"⟩, ⟨"../.w/b/elm.json"⟩] := by
  have isRoot : (hiddenDisk hiddenEntries).isDirectory ⟨"../.w/"⟩ = true := by decide +kernel
  obtain ⟨entries, top⟩ := Disk.isDirectory_iff.1 isRoot
  have inside : (hiddenDisk hiddenEntries).entries ⟨"../.w/"⟩ = entries := by
    rw [Disk.entries, top]
  have found : (manifestsAt ⟨"../.w/"⟩
      (.directory ((hiddenDisk hiddenEntries).entries ⟨"../.w/"⟩))).Perm
        [⟨"../.w/a/elm-package.json"⟩, ⟨"../.w/a/elm.json/elm.json"⟩, ⟨"../.w/b/elm.json"⟩] := by
    decide +kernel
  have relists : (hiddenDisk hiddenEntries).Relists (hiddenDisk hiddenEntries.reverse) := by
    refine ⟨?_, rfl⟩
    apply Node.Relists.below_first
    exact Node.Relists.of_perm (List.reverse_perm _).symm (by decide)
  obtain ⟨ascends, _, _, sameOrder⟩ := candidates_exact hiddenDisk_isSound top
  have listed : candidates (hiddenDisk hiddenEntries) ⟨"../.w/"⟩ =
      [⟨"../.w/a/elm-package.json"⟩, ⟨"../.w/a/elm.json/elm.json"⟩, ⟨"../.w/b/elm.json"⟩] := by
    apply Workspace.eq_of_ascend_of_mem_iff id ascends (by decide +kernel)
    intro path
    rw [← found.mem_iff, inside]
    simp only [candidates, top, List.mem_mergeSort]
  refine ⟨hiddenDisk_isSound, isRoot, listed, ?_⟩
  rw [sameOrder _ relists]
  exact listed

end Discovery

end ElmAtlas
