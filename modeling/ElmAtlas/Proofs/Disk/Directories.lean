import ElmAtlas.Proofs.Disk

/-!
# Making directories

Before a file is replaced, the directories above it are made, and those stay when the file
cannot be written.  They are the only trace of a request that failed: whatever the disk
showed before it still shows, and what is new is a directory on the way of the path.
-/

namespace ElmAtlas

/-- What a disk shows at a place where there is something. -/
inductive Sight where
  | directory
  | file (content : ByteArray) (isExecutable : Bool)

namespace Node

def sight : Node → Sight
  | .directory _ => .directory
  | .file content isExecutable => .file content isExecutable

def sight? (top : Node) (place : List String) : Option Sight :=
  (top.get? place).map sight

theorem sight?_isSome_of_prefix {top : Node} {names place : List String}
    (above : place <+: names) (present : (top.sight? names).isSome = true) :
    (top.sight? place).isSome = true := by
  obtain ⟨below, rfl⟩ := above
  rw [sight?, Option.isSome_map, get?_append] at present
  rw [sight?, Option.isSome_map]
  exact Option.isSome_of_isSome_bind present

theorem sight?_eq_directory {top : Node} {place : List String} :
    top.sight? place = some .directory ↔ ∃ entries, top.get? place = some (.directory entries) := by
  rw [sight?, Option.map_eq_some_iff]
  constructor
  · rintro ⟨node, found, seen⟩
    cases node with
    | directory entries => exact ⟨entries, found⟩
    | file content isExecutable => cases seen
  · rintro ⟨entries, found⟩
    exact ⟨_, found, rfl⟩

theorem sight?_eq_file {top : Node} {place : List String} {content : ByteArray}
    {isExecutable : Bool} :
    top.sight? place = some (.file content isExecutable) ↔
      top.get? place = some (.file content isExecutable) := by
  rw [sight?, Option.map_eq_some_iff]
  constructor
  · rintro ⟨node, found, seen⟩
    cases node with
    | directory entries => cases seen
    | file old wasExecutable =>
        cases seen
        exact found
  · intro found
    exact ⟨_, found, rfl⟩

theorem lookup_putEntry (name other : String) (node : Node) (entries : List (String × Node)) :
    (putEntry name node entries).lookup other =
      if other = name then some node else entries.lookup other := by
  induction entries with
  | nil =>
      rw [putEntry]
      by_cases same : other = name
      · simp [same]
      · simp [List.lookup_cons, beq_eq_false_iff_ne.2 same, same]
  | cons entry entries induction =>
      obtain ⟨head, inner⟩ := entry
      rw [putEntry]
      by_cases found : head = name
      · subst found
        rw [if_pos (beq_self_eq_true head)]
        by_cases same : other = head
        · simp [same]
        · simp [List.lookup_cons, beq_eq_false_iff_ne.2 same, same]
      · rw [if_neg (by simpa using found), List.lookup_cons, List.lookup_cons, induction]
        by_cases first : other = head
        · simp [first, found]
        · simp [beq_eq_false_iff_ne.2 first]

private theorem put_cons {entries : List (String × Node)} {name : String} {inner : Node}
    (found : entries.lookup name = some inner) (node : Node) {names : List String}
    (further : names ≠ []) :
    node.put (name :: names) (.directory entries) =
      .directory (putEntry name (node.put names inner) entries) := by
  cases names with
  | nil => exact absurd rfl further
  | cons next names => rw [put, found]

theorem sight?_directory_cons (entries : List (String × Node)) (name : String)
    (names : List String) :
    (Node.directory entries).sight? (name :: names) =
      (entries.lookup name).bind fun inner => inner.sight? names := by
  rw [sight?, get?]
  cases entries.lookup name <;> rfl

/-- Nothing lies below a file or an empty directory. -/
def IsLeaf (node : Node) : Prop :=
  ∀ name names, node.get? (name :: names) = none

theorem isLeaf_file (content : ByteArray) (isExecutable : Bool) :
    (Node.file content isExecutable).IsLeaf :=
  fun _ _ => rfl

private theorem isLeaf_empty : (Node.directory []).IsLeaf :=
  fun _ _ => rfl

/-- A leaf that takes an empty slot or the slot of a leaf is seen there, and everything
else as before. -/
theorem sight?_put {top node : Node} {place : List String} {name : String}
    {entries : List (String × Node)} (above : top.get? place = some (.directory entries))
    (leaf : node.IsLeaf)
    (free : ∀ inner, top.get? (place ++ [name]) = some inner → inner.IsLeaf)
    (other : List String) :
    (node.put (place ++ [name]) top).sight? other =
      if other = place ++ [name] then some node.sight else top.sight? other := by
  induction place generalizing top other with
  | nil =>
      obtain rfl := Option.some.inj above
      rw [List.nil_append, put]
      cases other with
      | nil => rfl
      | cons first rest =>
          rw [sight?_directory_cons, sight?_directory_cons, lookup_putEntry]
          by_cases same : first = name
          · subst same
            rw [if_pos rfl]
            cases rest with
            | nil => simp [sight?, get?]
            | cons second rest =>
                have below : (entries.lookup first).bind
                    (fun inner => inner.sight? (second :: rest)) = none := by
                  rw [Option.bind_eq_none_iff]
                  intro inner found
                  rw [sight?, free inner (by simp [get?, found]), Option.map_none]
                rw [below]
                simp [sight?, leaf second rest]
          · rw [if_neg same, if_neg (by simp [same])]
  | cons head place induction =>
      cases top with
      | file content isExecutable => simp [get?] at above
      | directory around =>
          rw [get?] at above
          rw [List.cons_append, get?] at free
          split at above
          · rename_i inner found
            rw [found] at free
            rw [List.cons_append, put_cons found _ (by simp)]
            cases other with
            | nil => rfl
            | cons first rest =>
                rw [sight?_directory_cons, sight?_directory_cons, lookup_putEntry]
                by_cases same : first = head
                · subst same
                  rw [if_pos rfl, found, Option.bind_some, induction above free]
                  simp
                · rw [if_neg same, if_neg (by simp [same])]
          · cases above

end Node

/-- The place after a step, wherever there are directories. -/
def Step.follow (place : List String) : Step → List String
  | .stay => place
  | .up => place.dropLast
  | .down name => place ++ [name]

private theorem Step.foldl_follow_filter (steps : List Step) (place : List String) :
    (steps.filter (· != .stay)).foldl follow place = steps.foldl follow place := by
  induction steps generalizing place with
  | nil => rfl
  | cons step steps induction =>
      cases step with
      | stay => exact induction place
      | up => exact induction place.dropLast
      | down name => exact induction (place ++ [name])

/-- The steps of a path that go somewhere. -/
def Path.moves (path : Path) : List Step :=
  path.steps.filter (· != .stay)

namespace Disk

/-- The places on the way of a path, the last one included. -/
def LeadsThrough (disk : Disk) (path : Path) (place : List String) : Prop :=
  ∃ moves, moves <+: path.moves ∧ moves.foldl Step.follow (disk.start path) = place

/-- Every step stands on a directory and goes where it leads. -/
theorem walk_cons_eq_ok {top : Node} {step : Step} {steps : List Step}
    {place found : List String} (walked : walk top place (step :: steps) = .ok found) :
    (∃ entries, top.get? place = some (.directory entries)) ∧
      walk top (step.follow place) steps = .ok found := by
  rw [walk] at walked
  split at walked
  · rename_i entries here
    refine ⟨⟨entries, here⟩, ?_⟩
    cases step with
    | stay => exact walked
    | up => exact walked
    | down name =>
        dsimp only at walked
        split at walked
        · cases walked
        · split at walked
          · exact walked
          · cases walked
  · cases walked
  · cases walked

private theorem walk_follows {top : Node} {steps : List Step} {place found : List String}
    (walked : walk top place steps = .ok found) : found = steps.foldl Step.follow place := by
  induction steps generalizing place with
  | nil => exact (Except.ok.inj walked).symm
  | cons step steps induction => exact induction (walk_cons_eq_ok walked).2

/-- A walk that may stay where it ends has ended on a directory. -/
theorem walk_stays {top : Node} {steps : List Step} {place found : List String}
    (walked : walk top place (steps ++ [.stay]) = .ok found) :
    ∃ entries, top.get? found = some (.directory entries) := by
  induction steps generalizing place with
  | nil =>
      obtain ⟨here, arrived⟩ := walk_cons_eq_ok walked
      obtain rfl := Except.ok.inj arrived
      exact here
  | cons step steps induction => exact induction (walk_cons_eq_ok walked).2

private theorem filter_withoutStays (steps : List Step) :
    (withoutStays steps).filter (· != .stay) = steps.filter (· != .stay) := by
  have dropped : (steps.reverse.dropWhile (· == .stay)).filter (· != .stay) =
      steps.reverse.filter (· != .stay) := by
    induction steps.reverse with
    | nil => rfl
    | cons step steps induction =>
        rw [List.dropWhile_cons]
        split
        · rename_i stays
          rw [induction, List.filter_cons_of_neg (by simpa using stays)]
        · rfl
  rw [withoutStays, List.filter_reverse, dropped, List.filter_reverse, List.reverse_reverse]

/-- A slot is found by a walk to its directory. -/
theorem walk_of_slot {disk : Disk} {path : Path} {steps : List Step} {place : List String}
    {name : String} (free : disk.slot path steps = .ok (some (place, name))) :
    name.utf8ByteSize ≤ nameLimit ∧ ∃ front, steps = front ++ [.down name] ∧
      walk disk.top (disk.start path) (front ++ [.stay]) = .ok place := by
  unfold slot at free
  split at free
  · rename_i last final
    obtain ⟨found, walked, named⟩ := bind_eq_ok.1 free
    split at named
    · cases named
    · rename_i short
      simp only [pure, Except.pure, Except.ok.injEq, Option.some.injEq, Prod.mk.injEq] at named
      obtain ⟨rfl, rfl⟩ := named
      exact ⟨Nat.not_lt.1 short, steps.dropLast,
        (List.dropLast_append_getLast? _ final).symm, walked⟩
  · obtain ⟨found, _, named⟩ := bind_eq_ok.1 free
    cases named

theorem slot_eq_some {disk : Disk} {path : Path} {steps : List Step} {place : List String}
    {name : String} (free : disk.slot path steps = .ok (some (place, name))) :
    (∃ entries, disk.top.get? place = some (.directory entries)) ∧
      steps.foldl Step.follow (disk.start path) = place ++ [name] := by
  obtain ⟨_, front, rfl, walked⟩ := walk_of_slot free
  have arrived := walk_follows walked
  rw [List.foldl_append] at arrived
  refine ⟨walk_stays walked, ?_⟩
  rw [List.foldl_append, arrived]
  rfl

end Disk

namespace Path

theorem dropFillers_suffix (absolute : Bool) (pieces : List (List Char)) :
    dropFillers absolute pieces <:+ pieces := by
  fun_induction dropFillers absolute pieces with
  | case1 => exact List.suffix_rfl
  | case2 piece earlier filler induction => exact induction.trans (List.suffix_cons _ _)
  | case3 piece earlier kept => exact List.suffix_rfl

private theorem ne_nil_of_dropFillers {absolute : Bool} {pieces earlier : List (List Char)}
    {piece : List Char} (kept : dropFillers absolute pieces = piece :: earlier) : piece ≠ [] := by
  fun_induction dropFillers absolute pieces with
  | case1 => cases kept
  | case2 filler behind _ induction => exact induction kept
  | case3 first behind proper =>
      obtain ⟨rfl, _⟩ := List.cons.inj kept
      rintro rfl
      simp at proper

theorem isAbsolute_iff_pieces {path : Path} :
    path.isAbsolute = true ↔ ∃ piece pieces, path.pieces = [] :: piece :: pieces := by
  rw [isAbsolute, beq_iff_eq, pieces]
  cases path.text.toList with
  | nil => simp [Text.split]
  | cons first rest =>
      rw [List.head?_cons, Option.some.injEq, Text.split]
      by_cases slash : first = '/'
      · subst slash
        simp only [true_iff, beq_self_eq_true, if_true, List.cons.injEq, true_and]
        cases cut : Text.split (· == '/') rest with
        | nil =>
            rw [Text.split_eq_splitOnP] at cut
            exact absurd cut (List.splitOnP_ne_nil _ _)
        | cons piece pieces => exact ⟨piece, pieces, rfl⟩
      · simp only [slash, false_iff, beq_iff_eq, if_false]
        rintro ⟨piece, pieces, same⟩
        split at same
        · cases same
        · cases same

/-- The first pieces of a path make a path with the same start, unless the first alone
is left of an absolute one. -/
private theorem pieces_of_prefix {path : Path} {front : List (List Char)}
    (first : front <+: path.pieces) (nonempty : front ≠ []) (told : front ≠ [[]]) :
    (Path.mk (String.ofList (Text.join ['/'] front))).pieces = front ∧
      (Path.mk (String.ofList (Text.join ['/'] front))).isAbsolute = path.isAbsolute := by
  have free : ∀ piece ∈ front, '/' ∉ piece := by
    intro piece listed slash
    have outside := (of_mem_pieces (first.subset listed) slash).2
    exact outside rfl
  have pieces : (Path.mk (String.ofList (Text.join ['/'] front))).pieces = front :=
    (Text.split_eq_iff nonempty free).2 String.toList_ofList
  refine ⟨pieces, ?_⟩
  rw [Bool.eq_iff_iff, isAbsolute_iff_pieces, isAbsolute_iff_pieces, pieces]
  obtain ⟨behind, whole⟩ := first
  rw [← whole]
  constructor
  · rintro ⟨piece, rest, rfl⟩
    exact ⟨piece, rest ++ behind, rfl⟩
  · rintro ⟨piece, rest, same⟩
    cases front with
    | nil => exact absurd rfl nonempty
    | cons head tail =>
        obtain rfl : head = [] := (List.cons.inj same).1
        cases tail with
        | nil => exact absurd rfl told
        | cons second tail => exact ⟨second, tail, rfl⟩

/-- The path above is told from the same start, and its moves come first. -/
private theorem parent?_moves {path parent : Path} (above : path.parent? = some parent) :
    parent.isAbsolute = path.isAbsolute ∧ parent.moves <+: path.moves := by
  unfold parent? at above
  split at above
  · cases above
  · rename_i last earlier stripped
    split at above
    · obtain rfl := Option.some.inj above
      cases absolute : path.isAbsolute with
      | true => exact ⟨by decide, List.nil_prefix⟩
      | false => exact ⟨by decide, List.nil_prefix⟩
    · rename_i nonempty
      obtain rfl := Option.some.inj above
      have first : (dropFillers path.isAbsolute earlier).reverse <+: path.pieces := by
        rw [← List.reverse_reverse path.pieces, List.reverse_prefix]
        have behind : earlier <:+ last :: earlier := List.suffix_cons _ _
        rw [← stripped] at behind
        exact (dropFillers_suffix _ _).trans (behind.trans (dropFillers_suffix _ _))
      have told : (dropFillers path.isAbsolute earlier).reverse ≠ [[]] := by
        intro blank
        rw [List.reverse_eq_iff] at blank
        exact ne_nil_of_dropFillers blank rfl
      obtain ⟨pieces, absolute⟩ := pieces_of_prefix first (by simpa using nonempty) told
      refine ⟨absolute, ?_⟩
      rw [moves, moves, steps, steps, pieces]
      exact (first.map _).filter _

end Path

namespace Disk

variable {disk : Disk} {path : Path}

theorem LeadsThrough.of_parent {parent : Path} {place : List String}
    (above : path.parent? = some parent) (leads : disk.LeadsThrough parent place) :
    disk.LeadsThrough path place := by
  obtain ⟨absolute, first⟩ := Path.parent?_moves above
  obtain ⟨moves, listed, rfl⟩ := leads
  refine ⟨moves, listed.trans first, ?_⟩
  rw [start, start, absolute]

private theorem foldl_follow_down (names place : List String) :
    (names.map Step.down).foldl Step.follow place = place ++ names := by
  induction names generalizing place with
  | nil => exact (List.append_nil _).symm
  | cons name names induction =>
      rw [List.map_cons, List.foldl_cons, induction, Step.follow, List.append_assoc]
      rfl

/-- The path of a place leads down the names of the place. -/
theorem LeadsThrough.of_ofNames {names place : List String}
    (proper : ∀ name ∈ names, IsEntryName name)
    (leads : disk.LeadsThrough (Path.ofNames names) place) : place <+: names := by
  obtain ⟨moves, listed, rfl⟩ := leads
  have downwards : (Path.ofNames names).moves = names.map .down := by
    rw [Path.moves, Path.steps_ofNames proper]
    by_cases top : names = []
    · subst top
      rfl
    · rw [if_neg top, List.filter_cons_of_neg (by simp), List.filter_eq_self]
      intro step down
      obtain ⟨name, _, rfl⟩ := List.mem_map.1 down
      rfl
  rw [downwards] at listed
  obtain ⟨front, first, rfl⟩ := List.prefix_map_iff.1 listed
  rw [start, if_pos (Path.isAbsolute_ofNames names), foldl_follow_down]
  exact first

/-- A disk that shows what it showed before and directories on the way of a path. -/
structure GainsDirectories (path : Path) (before after : Disk) : Prop where
  cwd : after.cwd = before.cwd
  sight : ∀ place, after.top.sight? place = before.top.sight? place ∨
    before.top.sight? place = none ∧ after.top.sight? place = some .directory ∧
      before.LeadsThrough path place

namespace GainsDirectories

variable {before between after : Disk}

theorem refl (path : Path) (disk : Disk) : GainsDirectories path disk disk :=
  ⟨rfl, fun _ => .inl rfl⟩

theorem leadsThrough_iff (gains : GainsDirectories path before after) {other : Path}
    {place : List String} : after.LeadsThrough other place ↔ before.LeadsThrough other place := by
  rw [LeadsThrough, LeadsThrough, start, start, gains.cwd]

theorem trans (first : GainsDirectories path before between)
    (second : GainsDirectories path between after) : GainsDirectories path before after := by
  refine ⟨second.cwd.trans first.cwd, ?_⟩
  intro place
  rcases second.sight place with later | ⟨vacant, made, leads⟩
  · rcases first.sight place with earlier | ⟨vacant, made, leads⟩
    · exact .inl (later.trans earlier)
    · exact .inr ⟨vacant, later.trans made, leads⟩
  · rcases first.sight place with earlier | ⟨_, earlierMade, _⟩
    · exact .inr ⟨earlier ▸ vacant, made, first.leadsThrough_iff.1 leads⟩
    · rw [vacant] at earlierMade
      cases earlierMade

theorem of_parent {parent : Path} (above : path.parent? = some parent)
    (gains : GainsDirectories parent before after) : GainsDirectories path before after := by
  refine ⟨gains.cwd, ?_⟩
  intro place
  rcases gains.sight place with same | ⟨vacant, made, leads⟩
  · exact .inl same
  · exact .inr ⟨vacant, made, leads.of_parent above⟩

end GainsDirectories

/-- A directory is made in a free slot of another one, where the path leads. -/
theorem makeDirectory_eq_ok {made : Disk} (succeeds : disk.makeDirectory path = .ok made) :
    ∃ place name, (∃ entries, disk.top.get? place = some (.directory entries)) ∧
      disk.top.get? (place ++ [name]) = none ∧
      path.moves.foldl Step.follow (disk.start path) = place ++ [name] ∧
      made = { disk with top := (Node.directory []).put (place ++ [name]) disk.top } := by
  unfold makeDirectory at succeeds
  obtain ⟨_, _, told⟩ := bind_eq_ok.1 succeeds
  obtain ⟨slot, found, put⟩ := bind_eq_ok.1 told
  split at put
  · rename_i place name
    split at put
    · cases put
    · rename_i free
      obtain ⟨above, leads⟩ := slot_eq_some found
      refine ⟨place, name, above, by simpa using free, ?_, (Except.ok.inj put).symm⟩
      rw [← leads, ← Step.foldl_follow_filter (withoutStays path.steps), filter_withoutStays]
      rfl
  · cases put

theorem makeDirectory_gains {made : Disk} (succeeds : disk.makeDirectory path = .ok made) :
    GainsDirectories path disk made := by
  obtain ⟨place, name, ⟨entries, above⟩, vacant, leads, rfl⟩ := makeDirectory_eq_ok succeeds
  refine ⟨rfl, ?_⟩
  intro other
  rw [Node.sight?_put above Node.isLeaf_empty (by simp [vacant])]
  by_cases same : other = place ++ [name]
  · subst same
    right
    refine ⟨?_, if_pos rfl, path.moves, List.prefix_rfl, leads⟩
    rw [Node.sight?, vacant, Option.map_none]
  · exact .inl (if_neg same)

theorem ensureDirectory_gains (disk : Disk) (path : Path) :
    GainsDirectories path disk (disk.ensureDirectory path).disk := by
  unfold ensureDirectory
  split
  · rename_i made succeeds
    exact makeDirectory_gains succeeds
  · exact .refl path disk

theorem makeDirectoriesUpTo_gains (fuel : Nat) (disk : Disk) (path : Path) :
    GainsDirectories path disk (makeDirectoriesUpTo fuel disk path).disk := by
  induction fuel generalizing disk path with
  | zero => exact .refl path disk
  | succ fuel induction =>
      rw [makeDirectoriesUpTo]
      split
      · exact .refl path disk
      · split
        · split
          · exact .refl path disk
          · rename_i parent above
            have upper := (induction disk parent).of_parent above
            unfold Attempt.andThen
            split
            · exact upper.trans (ensureDirectory_gains _ path)
            · exact upper
        · exact ensureDirectory_gains disk path

/-- A file that cannot be replaced leaves no more than the directories above it. -/
theorem replaceFile_failed {content : String} {failure : Failure}
    (failed : (disk.replaceFile path content).fault = some failure) :
    GainsDirectories path.directory disk (disk.replaceFile path content).disk := by
  have made := makeDirectoriesUpTo_gains (path.directory.depth + 2) disk path.directory
  unfold replaceFile at failed ⊢
  simp only [Attempt.andThen, Attempt.mapFault] at failed ⊢
  cases fault : (disk.makeDirectories path.directory).fault with
  | some cause => exact made
  | none =>
      rw [fault] at failed
      simp only [Option.map_none] at failed ⊢
      split at failed
      · cases failed
      · exact made

/-- What a disk shows at a path, if it leads to something. -/
def sight? (disk : Disk) (path : Path) : Option Sight :=
  (disk.node path).toOption.map Node.sight

theorem sight?_eq_none {disk : Disk} {path : Path} :
    disk.sight? path = none ↔ disk.isPresent path = false := by
  unfold sight? isPresent
  cases disk.node path with
  | ok node => simp [Except.toOption]
  | error fault => simp [Except.toOption]

theorem sight?_ofNames {names : List String} (proper : ∀ name ∈ names, IsEntryName name)
    {sight : Sight} :
    disk.sight? (Path.ofNames names) = some sight ↔
      checkPath (Path.ofNames names) = .ok () ∧
      (∀ name ∈ names, name.utf8ByteSize ≤ nameLimit) ∧
      disk.top.sight? [] = some .directory ∧ disk.top.sight? names = some sight := by
  have topmost : disk.top.sight? [] = some .directory ↔
      ∃ entries, disk.top = .directory entries := by
    rw [Node.sight?_eq_directory]
    simp [Node.get?]
  rw [sight?, Option.map_eq_some_iff, topmost, Node.sight?, Option.map_eq_some_iff]
  simp only [toOption_eq_some, node_ofNames proper]
  constructor
  · rintro ⟨node, ⟨told, short, top, found⟩, seen⟩
    exact ⟨told, short, top, node, found, seen⟩
  · rintro ⟨told, short, top, node, found, seen⟩
    exact ⟨node, ⟨told, short, top, found⟩, seen⟩

theorem sight?_ofNames_congr {after : Disk} {names : List String}
    (proper : ∀ name ∈ names, IsEntryName name)
    (top : after.top.sight? [] = disk.top.sight? [])
    (same : after.top.sight? names = disk.top.sight? names) :
    after.sight? (Path.ofNames names) = disk.sight? (Path.ofNames names) := by
  apply Option.ext
  intro sight
  rw [sight?_ofNames proper, sight?_ofNames proper, top, same]

namespace GainsDirectories

variable {after : Disk}

/-- Nothing can come to the top of a disk. -/
theorem sight?_top (gains : GainsDirectories path disk after) :
    after.top.sight? [] = disk.top.sight? [] := by
  rcases gains.sight [] with same | ⟨vacant, _⟩
  · exact same
  · rw [Node.sight?, Node.get?] at vacant
    cases vacant

/-- What is shown at a place, before and after directories were made. -/
theorem sight?_ofNames (gains : GainsDirectories path disk after) {names : List String}
    (proper : ∀ name ∈ names, IsEntryName name) :
    after.sight? (Path.ofNames names) = disk.sight? (Path.ofNames names) ∨
      disk.sight? (Path.ofNames names) = none ∧
        after.sight? (Path.ofNames names) = some .directory ∧ disk.LeadsThrough path names := by
  rcases gains.sight names with same | ⟨vacant, made, leads⟩
  · exact .inl (sight?_ofNames_congr proper gains.sight?_top same)
  · have before : disk.sight? (Path.ofNames names) = none := by
      rw [Option.eq_none_iff_forall_ne_some]
      intro sight seen
      obtain ⟨_, _, _, found⟩ := (Disk.sight?_ofNames proper).1 seen
      rw [vacant] at found
      cases found
    cases seen : after.sight? (Path.ofNames names) with
    | none => exact .inl before.symm
    | some sight =>
        obtain ⟨_, _, _, found⟩ := (Disk.sight?_ofNames proper).1 seen
        rw [made] at found
        exact .inr ⟨before, found.symm, leads⟩

end GainsDirectories

end Disk

end ElmAtlas
