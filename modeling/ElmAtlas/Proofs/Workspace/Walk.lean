import ElmAtlas.Proofs.Disk.Tree
import ElmAtlas.Proofs.Path.NormalForm
import ElmAtlas.Workspace.Discovery
import Mathlib.Data.List.Induction

/-!
# The walk of a discovery

A walk fills the slot of a directory with the last current manifest that it meets
there, or else with the first manifest.  In a file tree it meets a directory's
entries once, so in the end the slot holds what a look into the directory finds:
`elm.json`, or else `elm-package.json`.
-/

namespace ElmAtlas

namespace Schema

theorem isEntryName_fileName (schema : Schema) : IsEntryName schema.fileName := by
  cases schema <;> decide

end Schema

namespace Discovery

def hasFile (entries : List (String × Node)) (name : String) : Bool :=
  match entries.lookup name with
  | some node => isFile node
  | none => false

/-- The manifest among the entries of a directory. -/
def manifestIn? (directory : Path) (entries : List (String × Node)) : Option Path :=
  ([Schema.current, Schema.legacy].find? fun schema => hasFile entries schema.fileName).map
    fun schema => directory.child schema.fileName

theorem exists_schema_of_manifestIn? {directory manifest : Path}
    {entries : List (String × Node)} (found : manifestIn? directory entries = some manifest) :
    ∃ schema : Schema, hasFile entries schema.fileName = true ∧
      manifest = directory.child schema.fileName := by
  obtain ⟨schema, chosen, rfl⟩ := Option.map_eq_some_iff.1 found
  have present := List.find?_some chosen
  exact ⟨schema, present, rfl⟩

/-- The current manifest of a directory comes before the legacy one. -/
theorem manifestIn?_eq_some {directory manifest : Path} {entries : List (String × Node)} :
    manifestIn? directory entries = some manifest ↔
      (hasFile entries "elm.json" = true ∧ manifest = directory.child "elm.json") ∨
      (hasFile entries "elm-package.json" = true ∧ hasFile entries "elm.json" = false ∧
        manifest = directory.child "elm-package.json") := by
  have chosen (schema : Schema) :
      (some schema).map (fun schema => directory.child schema.fileName) = some manifest ↔
        manifest = directory.child schema.fileName := by
    rw [Option.map_some, Option.some.injEq, eq_comm]
  rw [manifestIn?]
  cases current : hasFile entries "elm.json" with
  | true =>
      rw [List.find?_cons_of_pos (by exact current), chosen]
      simp [Schema.fileName]
  | false =>
      rw [List.find?_cons_of_neg (by simpa [Schema.fileName] using current)]
      cases legacy : hasFile entries "elm-package.json" with
      | true =>
          rw [List.find?_cons_of_pos (by exact legacy), chosen]
          simp [Schema.fileName]
      | false =>
          rw [List.find?_cons_of_neg (by simpa [Schema.fileName] using legacy)]
          simp

mutual

/-- A directory and those below it that are not skipped, each with its entries. -/
def directoriesAt (directory : Path) : Node → List (Path × List (String × Node))
  | .file _ _ => []
  | .directory entries => (directory, entries) :: directoriesBelow directory entries

def directoriesBelow (directory : Path) :
    List (String × Node) → List (Path × List (String × Node))
  | [] => []
  | (name, node) :: rest =>
      (if isSkipped name then [] else directoriesAt (directory.child name) node) ++
        directoriesBelow directory rest

end

/-- The names on the way to a directory and the entries there. -/
def Reaches (node : Node) (names : List String) (entries : List (String × Node)) : Prop :=
  (∀ name ∈ names, IsEntryName name ∧ isSkipped name = false) ∧
    node.get? names = some (.directory entries)

mutual

theorem exists_reaches_of_mem_directoriesAt {directory found : Path}
    {inside : List (String × Node)} (node : Node) (tree : node.IsTree)
    (member : (found, inside) ∈ directoriesAt directory node) :
    ∃ names, Reaches node names inside ∧ found = names.foldl Path.child directory := by
  cases node with
  | file content isExecutable => simp [directoriesAt] at member
  | directory entries =>
      rw [directoriesAt] at member
      rcases List.mem_cons.1 member with here | below
      · obtain ⟨rfl, rfl⟩ := Prod.mk.inj here
        exact ⟨[], ⟨by simp, rfl⟩, rfl⟩
      · obtain ⟨name, names, reaches, path⟩ :=
          exists_reaches_of_mem_directoriesBelow entries tree.1 tree.2 below
        exact ⟨name :: names, reaches, path⟩

theorem exists_reaches_of_mem_directoriesBelow {directory found : Path}
    {inside : List (String × Node)} (entries : List (String × Node))
    (different : (entries.map Prod.fst).Nodup) (trees : Node.AreTrees entries)
    (member : (found, inside) ∈ directoriesBelow directory entries) :
    ∃ name names, Reaches (.directory entries) (name :: names) inside ∧
      found = (name :: names).foldl Path.child directory := by
  cases entries with
  | nil => simp [directoriesBelow] at member
  | cons entry rest =>
      obtain ⟨first, node⟩ := entry
      obtain ⟨firstProper, tree, restTrees⟩ := trees
      obtain ⟨fresh, restDifferent⟩ := List.nodup_cons.1 different
      rw [directoriesBelow] at member
      rcases List.mem_append.1 member with inFirst | inRest
      · by_cases skipped : isSkipped first = true
        · simp [skipped] at inFirst
        · rw [if_neg skipped] at inFirst
          obtain ⟨names, ⟨visible, reached⟩, path⟩ :=
            exists_reaches_of_mem_directoriesAt node tree inFirst
          refine ⟨first, names, ⟨?_, ?_⟩, path⟩
          · exact List.forall_mem_cons.2 ⟨⟨firstProper, Bool.eq_false_iff.2 skipped⟩, visible⟩
          · simp [Node.get?, reached]
      · obtain ⟨name, names, ⟨visible, reached⟩, path⟩ :=
          exists_reaches_of_mem_directoriesBelow rest restDifferent restTrees inRest
        refine ⟨name, names, ⟨visible, ?_⟩, path⟩
        -- The name is listed in the rest, so the first entry does not hide it.
        rw [Node.get?] at reached ⊢
        split at reached
        · rename_i inner looked
          have listed : name ∈ rest.map Prod.fst := by
            obtain ⟨before, after, whole, _⟩ := List.lookup_eq_some_iff.1 looked
            simp [whole]
          have other : name ≠ first := by
            rintro rfl
            exact fresh listed
          rw [List.lookup_cons, beq_false_of_ne other, looked]
          exact reached
        · cases reached

end

theorem mem_directoriesBelow_of_lookup {directory : Path} {entries : List (String × Node)}
    {name : String} {node : Node} (looked : entries.lookup name = some node)
    (unskipped : isSkipped name = false) {found : Path × List (String × Node)}
    (member : found ∈ directoriesAt (directory.child name) node) :
    found ∈ directoriesBelow directory entries := by
  induction entries with
  | nil => simp at looked
  | cons entry rest induction =>
      obtain ⟨first, inner⟩ := entry
      rw [directoriesBelow]
      rw [List.lookup_cons] at looked
      split at looked
      · rename_i same
        obtain rfl := Option.some.inj looked
        rw [← eq_of_beq same, unskipped]
        exact List.mem_append_left _ member
      · exact List.mem_append_right _ (induction looked)

theorem Reaches.mem_directoriesAt {node : Node} {names : List String}
    {entries : List (String × Node)} (reaches : Reaches node names entries)
    (directory : Path) :
    (names.foldl Path.child directory, entries) ∈ directoriesAt directory node := by
  obtain ⟨visible, reached⟩ := reaches
  induction names generalizing node directory with
  | nil =>
      rw [Node.get?] at reached
      obtain rfl := Option.some.inj reached
      rw [directoriesAt]
      exact List.mem_cons_self
  | cons name names induction =>
      obtain ⟨first, rest⟩ := List.forall_mem_cons.1 visible
      cases node with
      | file content isExecutable => simp [Node.get?] at reached
      | directory inside =>
          rw [Node.get?] at reached
          split at reached
          · rename_i inner looked
            rw [directoriesAt]
            exact List.mem_cons_of_mem _
              (mem_directoriesBelow_of_lookup looked first.2 (induction _ rest reached))
          · cases reached

/-- Discovery lists the directories that unskipped names reach. -/
theorem mem_directoriesAt {directory found : Path} {node : Node} (tree : node.IsTree)
    {entries : List (String × Node)} :
    (found, entries) ∈ directoriesAt directory node ↔
      ∃ names, Reaches node names entries ∧ found = names.foldl Path.child directory := by
  constructor
  · intro member
    exact exists_reaches_of_mem_directoriesAt node tree member
  · rintro ⟨names, reaches, rfl⟩
    exact reaches.mem_directoriesAt directory

mutual

private theorem mem_filesAt (path directory : Path) (node : Node) :
    path ∈ filesAt directory node ↔
      (isFile node = true ∧ path = directory) ∨
      ∃ found ∈ directoriesAt directory node, ∃ entry ∈ found.2,
        isFile entry.2 = true ∧ path = found.1.child entry.1 := by
  cases node with
  | file content isExecutable => simp [filesAt, directoriesAt, isFile]
  | directory entries =>
      rw [filesAt, directoriesAt, mem_filesBelow, List.exists_mem_cons_iff]
      simp [isFile]

private theorem mem_filesBelow (path directory : Path) (entries : List (String × Node)) :
    path ∈ filesBelow directory entries ↔
      (∃ entry ∈ entries, isFile entry.2 = true ∧ path = directory.child entry.1) ∨
      ∃ found ∈ directoriesBelow directory entries, ∃ entry ∈ found.2,
        isFile entry.2 = true ∧ path = found.1.child entry.1 := by
  cases entries with
  | nil => simp [filesBelow, directoriesBelow]
  | cons entry rest =>
      obtain ⟨name, node⟩ := entry
      rw [filesBelow, directoriesBelow, List.mem_append, mem_filesBelow path directory rest]
      rw [List.exists_mem_cons_iff]
      cases node with
      | file content isExecutable => simp [filesAt, directoriesAt, isFile, or_assoc]
      | directory inside =>
          by_cases skipped : isSkipped name = true
          · simp [skipped, isFile]
          · have inner := mem_filesAt path (directory.child name) (.directory inside)
            simp only [isFile, Bool.false_eq_true, false_and, false_or] at inner ⊢
            simp only [skipped, Bool.not_false, Bool.and_false, Bool.false_eq_true, if_false,
              inner, List.mem_append, or_and_right, exists_or]
            exact or_left_comm

end

/-- What is in the slot of a directory. -/
def slotOf? (slots : Slots) (directory : Path) : Option Path :=
  (slots.find? (·.1.sameAs directory)).map Prod.snd

/-- Whether a file is a manifest in a directory. -/
def liesIn (directory file : Path) : Bool :=
  (Schema.ofPath? file).isSome && file.parent?.any (·.sameAs directory)

def isCurrent (file : Path) : Bool :=
  Schema.ofPath? file == some .current

private theorem slotOf?_congr {slots : Slots} {left right : Path}
    (same : left.sameAs right = true) : slotOf? slots left = slotOf? slots right := by
  have alike (path : Path) : path.sameAs left = path.sameAs right := by
    rw [Path.sameAs_comm path, Path.sameAs_comm path, Path.sameAs_congr_left same]
  simp only [slotOf?, alike]

private theorem slotOf?_replace (slots : Slots) (parent file directory : Path) :
    slotOf? (slots.map fun slot => if slot.1.sameAs parent then (slot.1, file) else slot)
        directory =
      (slotOf? slots directory).map fun old =>
        if directory.sameAs parent then file else old := by
  induction slots with
  | nil => rfl
  | cons slot slots induction =>
      unfold slotOf? at induction ⊢
      by_cases here : slot.1.sameAs directory = true
      · have same : slot.1.sameAs parent = directory.sameAs parent :=
          Path.sameAs_congr_left here parent
        by_cases replaced : directory.sameAs parent = true <;> simp [here, same, replaced]
      · by_cases replaced : slot.1.sameAs parent = true <;>
          simpa [here, replaced] using induction

private theorem slotOf?_concat (slots : Slots) (parent file directory : Path) :
    slotOf? (slots ++ [(parent, file)]) directory =
      (slotOf? slots directory).or (if parent.sameAs directory then some file else none) := by
  unfold slotOf?
  rw [List.find?_append, Option.map_or]
  by_cases here : parent.sameAs directory = true <;> simp [here]

private theorem any_sameAs_eq {slots : Slots} {parent directory : Path}
    (same : parent.sameAs directory = true) :
    (slots.any fun slot => slot.1.sameAs parent) = (slotOf? slots directory).isSome := by
  rw [← slotOf?_congr same, slotOf?, Option.isSome_map, List.isSome_find?]

/-- A manifest takes a slot that is empty, and a current one any slot. -/
private theorem slotOf?_fill (slots : Slots) (file directory : Path) :
    slotOf? (fill slots file) directory =
      if liesIn directory file then
        if isCurrent file then some file else (slotOf? slots directory).or (some file)
      else slotOf? slots directory := by
  unfold fill liesIn isCurrent
  cases found : Schema.ofPath? file with
  | none => simp
  | some schema =>
      cases above : file.parent? with
      | none => simp
      | some parent =>
          simp only [Option.isSome_some, Bool.true_and, Option.any_some]
          by_cases here : parent.sameAs directory = true
          · have there : directory.sameAs parent = true := by
              rw [Path.sameAs_comm, here]
            rw [any_sameAs_eq here, if_pos here]
            cases slot : slotOf? slots directory with
            | none =>
                have fresh : slotOf? (slots ++ [(parent, file)]) directory = some file := by
                  rw [slotOf?_concat, slot, if_pos here, Option.none_or]
                simp [fresh]
            | some old =>
                cases schema with
                | current => simp [slotOf?_replace, there, slot]
                | legacy => simp [slot]
          · have elsewhere : directory.sameAs parent = false := by
              rw [Path.sameAs_comm, Bool.eq_false_iff.2 here]
            rw [if_neg here]
            split
            · split
              · simp [slotOf?_replace, elsewhere]
              · rfl
            · rw [slotOf?_concat, if_neg here, Option.or_none]

/-- A slot holds the last current manifest that was met, or else the first manifest. -/
theorem slotOf?_foldl_fill (files : List Path) (directory : Path) :
    slotOf? (files.foldl fill []) directory =
      ((files.filter (liesIn directory)).reverse.find? isCurrent).or
        (files.filter (liesIn directory)).head? := by
  induction files using List.reverseRecOn with
  | nil => rfl
  | append_singleton files file induction =>
      rw [List.foldl_append, List.foldl_cons, List.foldl_nil, slotOf?_fill, induction,
        List.filter_append]
      by_cases lies : liesIn directory file = true
      · by_cases current : isCurrent file = true
        · simp [lies, current]
        · simp [lies, current, List.head?_append]
      · simp [lies]

/-- The invariant of the slots: no directory has two. -/
def AreApart (slots : Slots) : Prop :=
  slots.Pairwise fun left right => left.1.sameAs right.1 = false

theorem AreApart.fill {slots : Slots} (apart : AreApart slots) (file : Path) :
    AreApart (Discovery.fill slots file) := by
  unfold Discovery.fill
  split
  · rename_i directory _ _
    split
    · split
      · refine List.pairwise_map.2 (apart.imp ?_)
        intro left right different
        split <;> split <;> exact different
      · exact apart
    · rename_i fresh
      refine List.pairwise_append.2 ⟨apart, List.pairwise_singleton _ _, ?_⟩
      intro slot member added addedMember
      rw [List.mem_singleton.1 addedMember]
      simp only [List.any_eq_true, not_exists, not_and, Bool.not_eq_true] at fresh
      exact fresh slot member
  · exact apart

theorem areApart_foldl_fill (files : List Path) : AreApart (files.foldl fill []) := by
  refine List.foldlRecOn (motive := AreApart) _ _ List.Pairwise.nil ?_
  intro slots apart file _
  exact apart.fill file

theorem AreApart.slotOf?_eq {slots : Slots} (apart : AreApart slots) {slot : Path × Path}
    (member : slot ∈ slots) : slotOf? slots slot.1 = some slot.2 := by
  induction slots with
  | nil => cases member
  | cons first rest induction =>
      obtain ⟨different, restApart⟩ := List.pairwise_cons.1 apart
      unfold slotOf? at induction ⊢
      rcases List.mem_cons.1 member with rfl | later
      · simp [Path.sameAs_iff]
      · simpa [different slot later] using induction restApart later

/-- The manifests in the slots are those that some directory has in its slot. -/
theorem mem_manifestsAt_iff_slotOf? {path manifest : Path} {node : Node} :
    manifest ∈ manifestsAt path node ↔
      ∃ directory, slotOf? ((filesAt path node).foldl fill []) directory = some manifest := by
  rw [manifestsAt, List.mem_map]
  constructor
  · rintro ⟨slot, member, rfl⟩
    exact ⟨slot.1, (areApart_foldl_fill _).slotOf?_eq member⟩
  · rintro ⟨directory, found⟩
    obtain ⟨slot, chosen, rfl⟩ := Option.map_eq_some_iff.1 found
    exact ⟨slot, List.mem_of_find?_eq_some chosen, rfl⟩

theorem of_slotOf?_foldl_fill {files : List Path} {directory manifest : Path}
    (found : slotOf? (files.foldl fill []) directory = some manifest) :
    manifest ∈ files ∧ liesIn directory manifest = true := by
  rw [slotOf?_foldl_fill] at found
  apply List.mem_filter.1
  rcases Option.or_eq_some_iff.1 found with current | ⟨_, first⟩
  · exact List.mem_reverse.1 (List.mem_of_find?_eq_some current)
  · exact List.mem_of_mem_head? first

theorem mem_filesAt_of_mem_manifestsAt {path manifest : Path} {node : Node}
    (listed : manifest ∈ manifestsAt path node) : manifest ∈ filesAt path node := by
  obtain ⟨directory, found⟩ := mem_manifestsAt_iff_slotOf?.1 listed
  exact (of_slotOf?_foldl_fill found).1

private theorem sameAs_of_liesIn {left right file : Path} (inLeft : liesIn left file = true)
    (inRight : liesIn right file = true) : left.sameAs right = true := by
  simp only [liesIn, Bool.and_eq_true, Option.any_eq_true] at inLeft inRight
  obtain ⟨_, parent, found, toLeft⟩ := inLeft
  obtain ⟨_, other, otherFound, toRight⟩ := inRight
  obtain rfl := Option.some.inj (found.symm.trans otherFound)
  rw [Path.sameAs_congr_left (Path.sameAs_comm _ _ ▸ toLeft), toRight]

/-- A walk lists no manifest twice. -/
theorem nodup_manifestsAt (path : Path) (node : Node) : (manifestsAt path node).Nodup := by
  have apart := areApart_foldl_fill (filesAt path node)
  have lies : ∀ slot ∈ (filesAt path node).foldl fill [], liesIn slot.1 slot.2 = true :=
    fun slot member => (of_slotOf?_foldl_fill (apart.slotOf?_eq member)).2
  refine List.pairwise_map.2 (apart.imp_of_mem ?_)
  intro left right leftMember rightMember different same
  have alike := sameAs_of_liesIn (lies left leftMember) (same ▸ lies right rightMember)
  rw [different] at alike
  cases alike

variable {root manifest : Path} {entries inside : List (String × Node)} {names : List String}

private theorem exists_mem_of_hasFile {name : String} (file : hasFile entries name = true) :
    ∃ entry ∈ entries, isFile entry.2 = true ∧ entry.1 = name := by
  unfold hasFile at file
  split at file
  · rename_i node looked
    obtain ⟨before, after, whole, _⟩ := List.lookup_eq_some_iff.1 looked
    exact ⟨(name, node), by simp [whole], file, rfl⟩
  · cases file

private theorem hasFile_of_mem (distinct : (entries.map Prod.fst).Nodup)
    {entry : String × Node} (member : entry ∈ entries) (file : isFile entry.2 = true) :
    hasFile entries entry.1 = true := by
  rw [hasFile, Node.lookup_of_mem distinct member]
  exact file

/-- A walk of a tree meets the files of the directories that it reaches. -/
theorem mem_filesAt_iff (tree : (Node.directory entries).IsTree) {path : Path} :
    path ∈ filesAt root (.directory entries) ↔
      ∃ names inside name, Reaches (.directory entries) names inside ∧
        hasFile inside name = true ∧ path = (names.foldl Path.child root).child name := by
  rw [mem_filesAt]
  constructor
  · rintro (⟨isRoot, _⟩ | ⟨⟨found, inside⟩, member, entry, listed, file, rfl⟩)
    · cases isRoot
    · obtain ⟨names, reaches, rfl⟩ := (mem_directoriesAt tree).1 member
      have distinct := (tree.of_get? reaches.2).1
      exact ⟨names, inside, entry.1, reaches, hasFile_of_mem distinct listed file, rfl⟩
  · rintro ⟨names, inside, name, reaches, file, rfl⟩
    obtain ⟨entry, listed, isEntry, rfl⟩ := exists_mem_of_hasFile file
    exact .inr ⟨_, reaches.mem_directoriesAt root, entry, listed, isEntry, rfl⟩

private theorem ofPath?_child (directory : Path) {name : String} (proper : IsEntryName name)
    {schema : Schema} :
    Schema.ofPath? (directory.child name) = some schema ↔ name = schema.fileName := by
  have last : (directory.child name).fileName? = some name := by
    simp [Path.fileName?, Path.components_child directory proper]
  rw [Schema.ofPath?, last]
  by_cases current : name = Schema.fileName .current
  · subst current
    cases schema <;> decide
  · by_cases legacy : name = Schema.fileName .legacy
    · subst legacy
      cases schema <;> decide
    · cases schema <;> simp [current, legacy]

private theorem liesIn_child {directory parent : Path} {name : String}
    (proper : IsEntryName name) :
    liesIn directory (parent.child name) = true ↔
      (∃ schema : Schema, name = schema.fileName) ∧
        parent.components = directory.components := by
  obtain ⟨above, found, same⟩ := Path.exists_parent?_child parent proper
  simp only [liesIn, Bool.and_eq_true, Option.isSome_iff_exists, ofPath?_child parent proper,
    found, Option.any_some, Path.sameAs_iff, same]

private theorem isCurrent_child (directory : Path) (schema : Schema) :
    isCurrent (directory.child schema.fileName) = true ↔ schema = .current := by
  rw [isCurrent, (ofPath?_child directory schema.isEntryName_fileName).2 rfl]
  simp

/-- The manifests that a walk meets in a directory are those among its entries. -/
private theorem mem_filter_liesIn (tree : (Node.directory entries).IsTree)
    (reaches : Reaches (.directory entries) names inside) {file : Path} :
    file ∈ (filesAt root (.directory entries)).filter (liesIn (names.foldl Path.child root)) ↔
      ∃ schema : Schema, hasFile inside schema.fileName = true ∧
        file = (names.foldl Path.child root).child schema.fileName := by
  have proper : ∀ name ∈ names, IsEntryName name := fun name listed => (reaches.1 name listed).1
  rw [List.mem_filter, mem_filesAt_iff tree]
  constructor
  · rintro ⟨⟨otherNames, otherInside, name, otherReaches, present, rfl⟩, lies⟩
    have otherProper : ∀ name ∈ otherNames, IsEntryName name :=
      fun name listed => (otherReaches.1 name listed).1
    obtain ⟨entry, listed, _, rfl⟩ := exists_mem_of_hasFile present
    have inner := tree.of_get? otherReaches.2
    obtain ⟨⟨schema, named⟩, same⟩ :=
      (liesIn_child (Node.areTrees_iff.1 inner.2 entry listed).1).1 lies
    -- The names on the way are told by the components of the directory.
    rw [Path.components_foldl_child root otherProper, Path.components_foldl_child root proper]
      at same
    obtain rfl := List.map_injective_iff.2 (fun _ _ => Component.name.inj)
      (List.append_cancel_left same)
    obtain rfl := Node.directory.inj (Option.some.inj (otherReaches.2.symm.trans reaches.2))
    rw [named] at present ⊢
    exact ⟨schema, present, rfl⟩
  · rintro ⟨schema, present, rfl⟩
    refine ⟨⟨names, inside, _, reaches, present, rfl⟩, ?_⟩
    exact (liesIn_child schema.isEntryName_fileName).2 ⟨⟨schema, rfl⟩, rfl⟩

/-- The last current manifest among those of a directory, or else the first of them, is what
a look into the directory finds. -/
private theorem manifestIn?_of_met {directory : Path} {met : List Path}
    (member : ∀ file, file ∈ met ↔ ∃ schema : Schema,
      hasFile inside schema.fileName = true ∧ file = directory.child schema.fileName) :
    (met.reverse.find? isCurrent).or met.head? = manifestIn? directory inside := by
  cases found : met.reverse.find? isCurrent with
  | some chosen =>
      obtain ⟨schema, present, rfl⟩ :=
        (member chosen).1 (List.mem_reverse.1 (List.mem_of_find?_eq_some found))
      obtain rfl := (isCurrent_child _ schema).1 (List.find?_some found)
      exact (manifestIn?_eq_some.2 (.inl ⟨present, rfl⟩)).symm
  | none =>
      have noCurrent : hasFile inside "elm.json" = false := by
        rw [← Bool.not_eq_true]
        intro present
        have listed := (member _).2 ⟨.current, present, rfl⟩
        exact List.find?_eq_none.1 found _ (List.mem_reverse.2 listed)
          ((isCurrent_child _ _).2 rfl)
      rw [Option.none_or]
      cases first : met.head? with
      | some chosen =>
          obtain ⟨schema, present, rfl⟩ := (member chosen).1 (List.mem_of_mem_head? first)
          cases schema with
          | current =>
              rw [Schema.fileName, noCurrent] at present
              cases present
          | legacy => exact (manifestIn?_eq_some.2 (.inr ⟨present, noCurrent, rfl⟩)).symm
      | none =>
          cases looked : manifestIn? directory inside with
          | none => rfl
          | some manifest =>
              obtain ⟨schema, present, _⟩ := exists_schema_of_manifestIn? looked
              have listed := (member _).2 ⟨schema, present, rfl⟩
              rw [List.head?_eq_none_iff.1 first] at listed
              cases listed

/-- In the end the slot of a directory holds what a look into the directory finds. -/
theorem slotOf?_walk (tree : (Node.directory entries).IsTree)
    (reaches : Reaches (.directory entries) names inside) :
    slotOf? ((filesAt root (.directory entries)).foldl fill [])
        (names.foldl Path.child root) =
      manifestIn? (names.foldl Path.child root) inside := by
  rw [slotOf?_foldl_fill]
  exact manifestIn?_of_met fun _ => mem_filter_liesIn tree reaches

/-- A walk of a tree lists the manifests of the directories that it reaches. -/
theorem mem_manifestsAt (tree : (Node.directory entries).IsTree) :
    manifest ∈ manifestsAt root (.directory entries) ↔
      ∃ names inside, Reaches (.directory entries) names inside ∧
        manifestIn? (names.foldl Path.child root) inside = some manifest := by
  rw [mem_manifestsAt_iff_slotOf?]
  constructor
  · rintro ⟨directory, found⟩
    obtain ⟨listed, lies⟩ := of_slotOf?_foldl_fill found
    obtain ⟨names, inside, name, reaches, present, rfl⟩ := (mem_filesAt_iff tree).1 listed
    obtain ⟨entry, member, _, rfl⟩ := exists_mem_of_hasFile present
    have proper := (Node.areTrees_iff.1 (tree.of_get? reaches.2).2 entry member).1
    have same : (names.foldl Path.child root).sameAs directory = true :=
      Path.sameAs_iff.2 ((liesIn_child proper).1 lies).2
    refine ⟨names, inside, reaches, ?_⟩
    rw [← slotOf?_walk tree reaches, slotOf?_congr same, found]
  · rintro ⟨names, inside, reaches, chosen⟩
    exact ⟨_, (slotOf?_walk tree reaches).trans chosen⟩

end Discovery

end ElmAtlas
