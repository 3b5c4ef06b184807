import ElmAtlas.Disk
import ElmAtlas.Proofs.Text.Pieces

/-!
# Places

A place is an absolute path in normal form: the root and the names of entries
below it.  The normal form of every absolute path is a place, a place is its own
normal form, and two places are the same exactly if their names agree.  So what
is known about a place can be told by its list of names.
-/

namespace ElmAtlas

/-- The names that an entry of a directory can have. -/
structure IsEntryName (name : String) : Prop where
  nonempty : name ≠ ""
  notCurrent : name ≠ "."
  notParent : name ≠ ".."
  noSeparator : '/' ∉ name.toList

instance (name : String) : Decidable (IsEntryName name) :=
  decidable_of_iff (name ≠ "" ∧ name ≠ "." ∧ name ≠ ".." ∧ '/' ∉ name.toList)
    ⟨fun ⟨nonempty, notCurrent, notParent, noSeparator⟩ =>
      ⟨nonempty, notCurrent, notParent, noSeparator⟩,
    fun ⟨nonempty, notCurrent, notParent, noSeparator⟩ =>
      ⟨nonempty, notCurrent, notParent, noSeparator⟩⟩

namespace Component

theorem ofPiece?_of_isEntryName {name : String} (proper : IsEntryName name) :
    ofPiece? name.toList = some (.name name) := by
  have nonempty : name.toList ≠ [] := by
    simpa using proper.nonempty
  have notCurrent : name.toList ≠ ['.'] := fun same =>
    proper.notCurrent (String.toList_injective same)
  have notParent : name.toList ≠ ['.', '.'] := fun same =>
    proper.notParent (String.toList_injective same)
  simp [ofPiece?, nonempty, notCurrent, notParent]

/-- A component that may follow another one. -/
def IsStep : Component → Prop
  | root | current => False
  | parent => True
  | name text => IsEntryName text

private theorem isStep_of_ofPiece? {piece : List Char} (noSeparator : '/' ∉ piece)
    {component : Component} (found : ofPiece? piece = some component) :
    component.IsStep := by
  unfold ofPiece? at found
  split at found
  · cases found
  · rename_i notFiller
    split at found
    · obtain rfl := Option.some.inj found
      exact trivial
    · rename_i notParent
      obtain rfl := Option.some.inj found
      simp only [Bool.or_eq_true, List.isEmpty_iff, beq_iff_eq, not_or] at notFiller
      refine ⟨?_, ?_, ?_, by simpa using noSeparator⟩
      · intro empty
        exact notFiller.1 (by simpa using congrArg String.toList empty)
      · intro current
        exact notFiller.2 (by simpa using congrArg String.toList current)
      · intro parent
        exact notParent (by simpa using congrArg String.toList parent)

end Component

namespace Path

theorem sameAs_iff {left right : Path} :
    left.sameAs right = true ↔ left.components = right.components := by
  simp [sameAs]

theorem sameAs_congr_left {left right : Path} (same : left.sameAs right = true)
    (other : Path) : left.sameAs other = right.sameAs other := by
  simp [sameAs, sameAs_iff.1 same]

theorem sameAs_comm (left right : Path) : left.sameAs right = right.sameAs left := by
  rw [Bool.eq_iff_iff, sameAs_iff, sameAs_iff, eq_comm]

theorem of_mem_pieces {path : Path} {piece : List Char} (member : piece ∈ path.pieces)
    {character : Char} (inside : character ∈ piece) :
    character ∈ path.text.toList ∧ character ≠ '/' := by
  obtain ⟨listed, free⟩ := Text.of_mem_split member inside
  exact ⟨listed, by simpa using free⟩

/-- What an absolute path holds behind its root. -/
theorem components_of_isAbsolute {path : Path} (absolute : path.isAbsolute = true) :
    path.components = .root :: path.pieces.filterMap Component.ofPiece? := by
  rw [components, if_pos absolute]

theorem isStep_of_mem_pieces {path : Path} {component : Component}
    (member : component ∈ path.pieces.filterMap Component.ofPiece?) : component.IsStep := by
  obtain ⟨piece, listed, found⟩ := List.mem_filterMap.1 member
  refine Component.isStep_of_ofPiece? ?_ found
  intro separator
  exact (of_mem_pieces listed separator).2 rfl

theorem mem_text_of_name {path : Path} {name : String}
    (member : .name name ∈ path.pieces.filterMap Component.ofPiece?) {character : Char}
    (inside : character ∈ name.toList) : character ∈ path.text.toList := by
  obtain ⟨piece, listed, found⟩ := List.mem_filterMap.1 member
  have same : name.toList = piece := by
    unfold Component.ofPiece? at found
    split at found
    · cases found
    · split at found
      · cases found
      · obtain rfl := Component.name.inj (Option.some.inj found)
        exact String.toList_ofList
  exact (of_mem_pieces listed (same ▸ inside)).1

/-- The path of the names below the root. -/
def ofNames (names : List String) : Path :=
  ofComponents (.root :: names.map .name)

theorem ofNames_text (names : List String) :
    (ofNames names).text = "/" ++ String.intercalate "/" names := by
  have texts : (names.map Component.name).map Component.text = names := by
    rw [List.map_map]
    exact List.map_id names
  rw [ofNames, ofComponents, texts]

theorem ofNames_toList (names : List String) :
    (ofNames names).text.toList = '/' :: ['/'].intercalate (names.map String.toList) := by
  rw [ofNames_text, String.toList_append, String.toList_intercalate]
  rfl

theorem isAbsolute_ofNames (names : List String) : (ofNames names).isAbsolute = true := by
  rw [isAbsolute, ofNames_toList]
  rfl

/-- A place is written as an empty piece and its names. -/
theorem pieces_ofNames {names : List String} (proper : ∀ name ∈ names, IsEntryName name) :
    (ofNames names).pieces = [] :: (if names = [] then [[]] else names.map String.toList) := by
  have beginning := List.splitOn_append_cons_self (a := '/') []
    (['/'].intercalate (names.map String.toList))
  rw [List.nil_append, List.splitOn_nil] at beginning
  rw [pieces, ofNames_toList, Text.split_eq_splitOnP, ← List.splitOn_eq_splitOnP, beginning]
  cases names with
  | nil => rfl
  | cons first rest =>
      have free : ∀ piece ∈ (first :: rest).map String.toList, '/' ∉ piece := by
        intro piece member
        obtain ⟨name, listed, rfl⟩ := List.mem_map.1 member
        exact (proper name listed).noSeparator
      rw [List.splitOn_intercalate '/' free (by simp), if_neg (by simp), List.singleton_append]

private theorem filterMap_pieces_ofNames {names : List String}
    (proper : ∀ name ∈ names, IsEntryName name) :
    (ofNames names).pieces.filterMap Component.ofPiece? = names.map .name := by
  rw [pieces_ofNames proper]
  by_cases top : names = []
  · subst top
    rfl
  · have named : names.filterMap (Component.ofPiece? ∘ String.toList) = names.map .name :=
      List.filterMap_eq_map_iff_forall_eq_some.2 fun name listed =>
        Component.ofPiece?_of_isEntryName (proper name listed)
    rw [if_neg top, List.filterMap_cons_none rfl, List.filterMap_map, named]

theorem components_ofNames {names : List String}
    (proper : ∀ name ∈ names, IsEntryName name) :
    (ofNames names).components = .root :: names.map .name := by
  rw [components_of_isAbsolute (isAbsolute_ofNames names), filterMap_pieces_ofNames proper]

theorem ofNames_injOn {left right : List String} (leftProper : ∀ name ∈ left, IsEntryName name)
    (rightProper : ∀ name ∈ right, IsEntryName name) (same : ofNames left = ofNames right) :
    left = right := by
  have components := congrArg components same
  rw [components_ofNames leftProper, components_ofNames rightProper] at components
  exact (List.map_injective_iff.2 fun _ _ => Component.name.inj) (List.cons.inj components).2

/-- An absolute path in normal form. -/
def IsPlace (path : Path) : Prop :=
  ∃ names, (∀ name ∈ names, IsEntryName name) ∧ path = ofNames names

/-- Normalising never leaves the root, and it adds no names. -/
private theorem foldl_normalizeStep_rooted (steps : List Component)
    (proper : ∀ step ∈ steps, step.IsStep) (names : List String) :
    ∃ kept : List String,
      steps.foldl normalizeStep ((names.map .name).reverse ++ [.root]) =
        (kept.map .name).reverse ++ [.root] ∧
      ∀ name ∈ kept, name ∈ names ∨ .name name ∈ steps := by
  induction steps generalizing names with
  | nil => exact ⟨names, rfl, fun _ listed => .inl listed⟩
  | cons step steps induction =>
      obtain ⟨first, rest⟩ := List.forall_mem_cons.1 proper
      rw [List.foldl_cons]
      cases step with
      | root => exact first.elim
      | current => exact first.elim
      | parent =>
          -- Going up drops the last name, and at the root it changes nothing.
          have up : normalizeStep ((names.map .name).reverse ++ [.root]) .parent =
              (names.dropLast.map .name).reverse ++ [.root] := by
            rcases List.eq_nil_or_concat' names with rfl | ⟨before, last, rfl⟩
            · rfl
            · simp [normalizeStep]
          obtain ⟨kept, folded, origin⟩ := induction rest names.dropLast
          refine ⟨kept, by rw [up, folded], ?_⟩
          intro name listed
          exact (origin name listed).imp (List.dropLast_subset names ·) (List.mem_cons_of_mem _)
      | name text =>
          have down : normalizeStep ((names.map .name).reverse ++ [.root]) (.name text) =
              ((names ++ [text]).map .name).reverse ++ [.root] := by
            simp [normalizeStep]
          obtain ⟨kept, folded, origin⟩ := induction rest (names ++ [text])
          refine ⟨kept, by rw [down, folded], ?_⟩
          intro name listed
          rcases origin name listed with old | new
          · rcases List.mem_append.1 old with older | last
            · exact .inl older
            · obtain rfl := List.mem_singleton.1 last
              exact .inr List.mem_cons_self
          · exact .inr (List.mem_cons_of_mem _ new)

/-- Names are kept one behind the other. -/
theorem foldl_normalizeStep_names (names : List String) (kept : List Component) :
    (names.map .name).foldl normalizeStep kept = (names.map .name).reverse ++ kept := by
  induction names generalizing kept with
  | nil => rfl
  | cons name names induction =>
      rw [List.map_cons, List.foldl_cons, induction]
      simp [normalizeStep]

theorem normalize_of_rooted {path : Path} {names : List String}
    (normal : normalizeComponents path.components = .root :: names.map .name) :
    path.normalize = ofNames names := by
  rw [normalize, normal]
  rfl

/-- The normal form of an absolute path, whose names are among those of the path. -/
private theorem normalize_eq_ofNames {path : Path} (absolute : path.isAbsolute = true) :
    ∃ names, path.normalize = ofNames names ∧
      ∀ name ∈ names, .name name ∈ path.pieces.filterMap Component.ofPiece? := by
  obtain ⟨names, folded, origin⟩ := foldl_normalizeStep_rooted
    (path.pieces.filterMap Component.ofPiece?) (fun _ => isStep_of_mem_pieces) []
  refine ⟨names, normalize_of_rooted ?_, ?_⟩
  · have begun : normalizeStep [] .root = (([] : List String).map .name).reverse ++ [.root] := rfl
    rw [components_of_isAbsolute absolute, normalizeComponents, List.foldl_cons, begun, folded,
      List.reverse_append, List.reverse_reverse]
    rfl
  · intro name listed
    exact (origin name listed).resolve_left List.not_mem_nil

theorem isPlace_normalize {path : Path} (absolute : path.isAbsolute = true) :
    path.normalize.IsPlace := by
  obtain ⟨names, normal, origin⟩ := normalize_eq_ofNames absolute
  exact ⟨names, fun name listed => isStep_of_mem_pieces (origin name listed), normal⟩

namespace IsPlace

variable {path : Path}

theorem isAbsolute (place : path.IsPlace) : path.isAbsolute = true := by
  obtain ⟨names, _, rfl⟩ := place
  exact isAbsolute_ofNames names

theorem normalize_eq (place : path.IsPlace) : path.normalize = path := by
  obtain ⟨names, proper, rfl⟩ := place
  refine normalize_of_rooted ?_
  rw [components_ofNames proper, normalizeComponents, List.foldl_cons,
    foldl_normalizeStep_names, List.reverse_append, List.reverse_reverse]
  rfl

/-- Places that are the same have the same text. -/
theorem eq_of_sameAs {other : Path} (place : path.IsPlace) (otherPlace : other.IsPlace)
    (same : path.sameAs other = true) : path = other := by
  obtain ⟨names, proper, rfl⟩ := place
  obtain ⟨otherNames, otherProper, rfl⟩ := otherPlace
  rw [sameAs, beq_iff_eq, components_ofNames proper, components_ofNames otherProper] at same
  have names_eq : names.map Component.name = otherNames.map Component.name :=
    (List.cons.inj same).2
  rw [ofNames, ofNames, names_eq]

end IsPlace

private theorem isAbsolute_join_of_isAbsolute {base path : Path}
    (absolute : base.isAbsolute = true) :
    (base.join path).isAbsolute = true := by
  unfold join
  split
  · assumption
  · have front : ∀ behind : List Char,
        (base.text.toList ++ behind).head? == some '/' := by
      intro behind
      cases text : base.text.toList with
      | nil => simp [isAbsolute, text] at absolute
      | cons first rest => simpa [isAbsolute, text] using absolute
    split
    · rw [isAbsolute, String.toList_append]
      exact front _
    · rw [isAbsolute, String.toList_append, String.toList_append, List.append_assoc]
      exact front _

theorem isPlace_absolutize {path base : Path} (absolute : base.isAbsolute = true) :
    (path.absolutize base).IsPlace :=
  isPlace_normalize (isAbsolute_join_of_isAbsolute absolute)

theorem absolutize_of_isAbsolute {path : Path} (absolute : path.isAbsolute = true)
    (base : Path) : path.absolutize base = path.normalize := by
  rw [absolutize, join, if_pos absolute]

theorem IsPlace.absolutize_eq {path : Path} (place : path.IsPlace) (base : Path) :
    path.absolutize base = path := by
  rw [absolutize_of_isAbsolute place.isAbsolute, place.normalize_eq]

private theorem ofNames_concat_text (before : List String) (last : String) :
    ∃ front : String, (ofNames (before ++ [last])).text = front ++ last := by
  by_cases top : before = []
  · exact ⟨"/", by rw [ofNames_text, top, List.nil_append, String.intercalate_singleton]⟩
  · refine ⟨"/" ++ (String.intercalate "/" before ++ "/"), ?_⟩
    rw [ofNames_text, String.intercalate_append_of_ne_nil top (by simp),
      String.intercalate_singleton, ← String.append_assoc]

theorem isAbsolute_of_isEntryName {name : String} (proper : IsEntryName name) :
    (Path.mk name).isAbsolute = false := by
  cases text : name.toList with
  | nil => simp [isAbsolute, text]
  | cons first rest =>
      have different : first ≠ '/' := by
        rintro rfl
        exact proper.noSeparator (by simp [text])
      simp [isAbsolute, text, different]

/-- Only the root ends in a separator. -/
private theorem ofNames_concat_open (before : List String) {last : String}
    (proper : IsEntryName last) :
    ((ofNames (before ++ [last])).text.isEmpty ||
      (ofNames (before ++ [last])).text.toList.getLast? == some '/') = false := by
  obtain ⟨front, text⟩ := ofNames_concat_text before last
  have nonempty : last.toList ≠ [] := by
    simpa using proper.nonempty
  have noSlash : last.toList.getLast? ≠ some '/' := fun slash =>
    proper.noSeparator (List.mem_of_getLast? slash)
  have written : (front ++ last).isEmpty = false := by
    simpa using fun _ => proper.nonempty
  rw [text, written, String.toList_append, List.getLast?_append_of_ne_nil _ nonempty]
  simpa using noSlash

theorem child_ofNames {names : List String} (proper : ∀ name ∈ names, IsEntryName name)
    {name : String} (nameProper : IsEntryName name) :
    (ofNames names).child name = ofNames (names ++ [name]) := by
  rw [child, join, isAbsolute_of_isEntryName nameProper, if_neg Bool.false_ne_true]
  rcases List.eq_nil_or_concat' names with rfl | ⟨before, last, rfl⟩
  · rfl
  · have lastProper : IsEntryName last := proper last (by simp)
    rw [ofNames_concat_open before lastProper, if_neg Bool.false_ne_true]
    have text := ofNames_text (before ++ [last] ++ [name])
    rw [String.intercalate_append_of_ne_nil (by simp) (by simp),
      String.intercalate_singleton, ← String.append_assoc, ← String.append_assoc,
      ← ofNames_text] at text
    rw [← text]

theorem dropFillers_of_isEntryName {name : String} (proper : IsEntryName name)
    (absolute : Bool) (earlier : List (List Char)) :
    dropFillers absolute (name.toList :: earlier) = name.toList :: earlier := by
  have nonempty : name.toList ≠ [] := by
    simpa using proper.nonempty
  have notCurrent : name.toList ≠ ['.'] := fun same =>
    proper.notCurrent (String.toList_injective same)
  simp [dropFillers, nonempty, notCurrent]

/-- An entry lies in the directory whose child it is. -/
theorem directory_child {directory : Path} (place : directory.IsPlace) {name : String}
    (proper : IsEntryName name) : (directory.child name).directory = directory := by
  obtain ⟨names, namesProper, rfl⟩ := place
  have childProper : ∀ other ∈ names ++ [name], IsEntryName other := by
    simpa [or_imp, forall_and] using ⟨namesProper, proper⟩
  rw [child_ofNames namesProper proper, Path.directory, parent?, isAbsolute_ofNames,
    pieces_ofNames childProper, if_neg (by simp), List.map_append, List.map_singleton,
    List.reverse_cons, List.reverse_append, List.reverse_singleton, List.singleton_append,
    List.cons_append, dropFillers_of_isEntryName proper]
  rcases List.eq_nil_or_concat' names with rfl | ⟨before, last, rfl⟩
  · rfl
  · have lastProper : IsEntryName last := namesProper last (by simp)
    rw [List.map_append, List.map_singleton, List.reverse_append, List.reverse_singleton,
      List.singleton_append, List.cons_append]
    simp only [dropFillers_of_isEntryName lastProper, Option.getD_some]
    have whole : (last.toList :: ((before.map String.toList).reverse ++ [[]])).reverse =
        [] :: (before ++ [last]).map String.toList := by
      simp
    rw [whole, Text.join_eq_intercalate, List.intercalate_cons_of_ne_nil (by simp),
      List.nil_append, List.singleton_append, ← ofNames_toList, String.ofList_toList]

end Path

end ElmAtlas
