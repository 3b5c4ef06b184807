import ElmAtlas.Proofs.Path.Place

/-!
# Normal forms

A path in normal form goes up before it goes down: it begins at the root or with
some `..`, and names follow.  Normalising leads to such a path from every path, also
from a relative one, and changes nothing when it is done again.  Names that are
written behind a path stand behind its normal form, too.
-/

namespace ElmAtlas

namespace Component

namespace IsStep

variable {step : Component}

theorem noSeparator (proper : step.IsStep) : '/' ∉ step.text.toList := by
  cases step with
  | root => exact proper.elim
  | current => exact proper.elim
  | parent => decide
  | name text => exact IsEntryName.noSeparator proper

theorem ofPiece?_text (proper : step.IsStep) : ofPiece? step.text.toList = some step := by
  cases step with
  | root => exact proper.elim
  | current => exact proper.elim
  | parent => decide
  | name text => exact ofPiece?_of_isEntryName proper

private theorem text_ne_current (proper : step.IsStep) : step.text.toList ≠ ['.'] := by
  intro same
  have nothing : ofPiece? step.text.toList = none := by
    rw [same]
    decide
  rw [proper.ofPiece?_text] at nothing
  cases nothing

private theorem text_ne_nil (proper : step.IsStep) : step.text.toList ≠ [] := by
  intro same
  have nothing : ofPiece? step.text.toList = none := by
    rw [same]
    decide
  rw [proper.ofPiece?_text] at nothing
  cases nothing

end IsStep

end Component

namespace Path

/-- The relative path that takes the given steps. -/
def ofSteps (steps : List Component) : Path :=
  ⟨String.intercalate "/" (steps.map Component.text)⟩

section OfSteps

variable {steps : List Component}

theorem pieces_ofSteps (proper : ∀ step ∈ steps, step.IsStep) (nonempty : steps ≠ []) :
    (ofSteps steps).pieces = steps.map (·.text.toList) := by
  have free : ∀ piece ∈ steps.map (·.text.toList), '/' ∉ piece := by
    intro piece member
    obtain ⟨step, listed, rfl⟩ := List.mem_map.1 member
    exact (proper step listed).noSeparator
  have written : (ofSteps steps).text.toList =
      ['/'].intercalate (steps.map (·.text.toList)) := by
    rw [ofSteps, String.toList_intercalate, List.map_map]
    rfl
  rw [pieces, written, Text.split_eq_splitOnP, ← List.splitOn_eq_splitOnP]
  exact List.splitOn_intercalate '/' free (by simpa using nonempty)

theorem isAbsolute_ofSteps (proper : ∀ step ∈ steps, step.IsStep) :
    (ofSteps steps).isAbsolute = false := by
  cases steps with
  | nil => rfl
  | cons step rest =>
      -- A text that begins with a separator has an empty first piece.
      have firstPiece := pieces_ofSteps proper (by simp)
      have nonempty := (proper step List.mem_cons_self).text_ne_nil
      rw [← Bool.not_eq_true]
      intro absolute
      obtain ⟨behind, text⟩ := List.head?_eq_some_iff.1 (beq_iff_eq.1 absolute)
      rw [pieces, text] at firstPiece
      simp only [Text.split, beq_self_eq_true, if_true, List.map_cons, List.cons.injEq]
        at firstPiece
      exact nonempty firstPiece.1.symm

theorem filterMap_pieces_ofSteps (proper : ∀ step ∈ steps, step.IsStep) :
    (ofSteps steps).pieces.filterMap Component.ofPiece? = steps := by
  by_cases nonempty : steps = []
  · subst nonempty
    decide
  · rw [pieces_ofSteps proper nonempty, List.filterMap_map]
    have found : steps.filterMap (Component.ofPiece? ∘ fun step => step.text.toList) =
        steps.map id :=
      List.filterMap_eq_map_iff_forall_eq_some.2 fun step listed =>
        (proper step listed).ofPiece?_text
    rw [found, List.map_id]

theorem components_ofSteps (proper : ∀ step ∈ steps, step.IsStep) :
    (ofSteps steps).components = steps := by
  rw [components, isAbsolute_ofSteps proper, if_neg Bool.false_ne_true]
  split
  · rename_i rest firstPiece
    cases steps with
    | nil => cases firstPiece
    | cons step later =>
        rw [pieces_ofSteps proper (by simp), List.map_cons] at firstPiece
        exact ((proper step List.mem_cons_self).text_ne_current
          (List.cons.inj firstPiece).1).elim
  · exact filterMap_pieces_ofSteps proper

end OfSteps

/-- The root or some `..`, and then names. -/
def IsNormal (components : List Component) : Prop :=
  ∃ (start : List Component) (names : List String),
    (start = [.root] ∨ ∃ ups, start = List.replicate ups .parent) ∧
    (∀ name ∈ names, IsEntryName name) ∧ components = start ++ names.map .name

theorem isNormal_nil : IsNormal [] :=
  ⟨[], [], .inr ⟨0, rfl⟩, by simp, rfl⟩

theorem isNormal_root : IsNormal [.root] :=
  ⟨[.root], [], .inl rfl, by simp, rfl⟩

theorem IsNormal.not_mem_current {components : List Component} (normal : IsNormal components) :
    .current ∉ components := by
  obtain ⟨start, names, rfl | ⟨ups, rfl⟩, _, rfl⟩ := normal
  · simp
  · simp [List.mem_replicate]

/-- A normal list that does not begin at the root is made of steps. -/
theorem IsNormal.cases {components : List Component} (normal : IsNormal components) :
    (∃ names : List String, (∀ name ∈ names, IsEntryName name) ∧
      components = .root :: names.map .name) ∨
    ((∀ step ∈ components, step.IsStep) ∧ ofComponents components = ofSteps components) := by
  obtain ⟨start, names, rfl | ⟨ups, rfl⟩, proper, rfl⟩ := normal
  · exact .inl ⟨names, proper, rfl⟩
  · refine .inr ⟨?_, ?_⟩
    · intro step listed
      rcases List.mem_append.1 listed with above | below
      · rw [(List.mem_replicate.1 above).2]
        exact trivial
      · obtain ⟨name, nameListed, rfl⟩ := List.mem_map.1 below
        exact proper name nameListed
    · cases ups with
      | zero =>
          cases names with
          | nil => rfl
          | cons name later => rfl
      | succ ups => rfl

/-- A `..` that has nothing to resolve is kept. -/
theorem normalizeStep_replicate (ups : Nat) :
    normalizeStep (List.replicate ups .parent) .parent = List.replicate (ups + 1) .parent := by
  cases ups <;> rfl

theorem normalizeStep_isNormal {kept : List Component} (normal : IsNormal kept.reverse)
    {step : Component} (proper : step.IsStep) :
    IsNormal (normalizeStep kept step).reverse := by
  obtain ⟨start, names, beginning, namesProper, whole⟩ := normal
  rw [List.reverse_eq_iff] at whole
  cases step with
  | root => exact proper.elim
  | current => exact proper.elim
  | name text =>
      have down : normalizeStep kept (.name text) = .name text :: kept := rfl
      refine ⟨start, names ++ [text], beginning, ?_, ?_⟩
      · simpa [or_imp, forall_and] using ⟨namesProper, proper⟩
      · rw [down, whole]
        simp
  | parent =>
      rcases List.eq_nil_or_concat' names with rfl | ⟨before, last, rfl⟩
      · rcases beginning with rfl | ⟨ups, rfl⟩
        · subst whole
          exact isNormal_root
        · rw [List.map_nil, List.append_nil, List.reverse_replicate] at whole
          rw [whole, normalizeStep_replicate, List.reverse_replicate]
          exact ⟨List.replicate (ups + 1) .parent, [], .inr ⟨ups + 1, rfl⟩, by simp, by simp⟩
      · have up : normalizeStep kept .parent = (start ++ before.map Component.name).reverse := by
          subst whole
          simp [normalizeStep]
        refine ⟨start, before, beginning, ?_, by rw [up, List.reverse_reverse]⟩
        exact fun name listed => namesProper name (List.mem_append_left _ listed)

theorem foldl_normalizeStep_isNormal {steps : List Component}
    (proper : ∀ step ∈ steps, step.IsStep) {kept : List Component}
    (normal : IsNormal kept.reverse) : IsNormal (steps.foldl normalizeStep kept).reverse := by
  induction steps generalizing kept with
  | nil => exact normal
  | cons step steps induction =>
      obtain ⟨first, rest⟩ := List.forall_mem_cons.1 proper
      exact induction rest (normalizeStep_isNormal normal first)

private theorem IsNormal.normalizeComponents_eq {components : List Component}
    (normal : IsNormal components) : normalizeComponents components = components := by
  obtain ⟨start, names, beginning, _, rfl⟩ := normal
  have begun : start.foldl normalizeStep [] = start.reverse := by
    rcases beginning with rfl | ⟨ups, rfl⟩
    · rfl
    · induction ups with
      | zero => rfl
      | succ ups induction =>
          rw [List.replicate_succ', List.foldl_append, induction, List.reverse_replicate,
            ← List.replicate_succ', List.reverse_replicate]
          exact normalizeStep_replicate ups
  rw [normalizeComponents, List.foldl_append, begun, foldl_normalizeStep_names,
    ← List.reverse_append, List.reverse_reverse]

/-- The components of a path without the `.` that it may begin with. -/
def bareComponents (path : Path) : List Component :=
  (if path.isAbsolute then [.root] else []) ++ path.pieces.filterMap Component.ofPiece?

theorem normalizeComponents_components (path : Path) :
    normalizeComponents path.components = normalizeComponents path.bareComponents := by
  unfold components bareComponents
  split
  · rfl
  · split
    · rename_i rest first
      rw [first]
      rfl
    · rfl

theorem isNormal_normalizeComponents (path : Path) :
    IsNormal (normalizeComponents path.components) := by
  rw [normalizeComponents_components, bareComponents, normalizeComponents, List.foldl_append]
  refine foldl_normalizeStep_isNormal (fun _ => isStep_of_mem_pieces) ?_
  split
  · exact isNormal_root
  · exact isNormal_nil

/-- Only the path `.` has a `.` in its normal form. -/
theorem components_normalize (path : Path) :
    path.normalize.components =
      if normalizeComponents path.components = [] then [.current]
      else normalizeComponents path.components := by
  have normal := isNormal_normalizeComponents path
  rw [normalize]
  split
  · rename_i nothing
    rw [nothing]
    decide
  · rename_i something
    rw [if_neg something]
    rcases normal.cases with ⟨names, proper, rooted⟩ | ⟨steps, relative⟩
    · rw [rooted]
      exact components_ofNames proper
    · rw [relative]
      exact components_ofSteps steps

theorem normalizeComponents_normalize (path : Path) :
    normalizeComponents path.normalize.components = normalizeComponents path.components := by
  rw [components_normalize]
  split
  · rename_i nothing
    rw [nothing]
    rfl
  · exact (isNormal_normalizeComponents path).normalizeComponents_eq

theorem normalize_normalize (path : Path) : path.normalize.normalize = path.normalize := by
  rw [normalize, normalizeComponents_normalize, ← normalize]

/-- The components of a normal form, where `.` stands for none. -/
private theorem filter_components_normalize (path : Path) :
    path.normalize.components.filter (· != .current) = normalizeComponents path.components := by
  rw [components_normalize]
  split
  · rename_i nothing
    rw [nothing]
    rfl
  · rw [List.filter_eq_self]
    intro component listed
    rw [bne_iff_ne]
    rintro rfl
    exact (isNormal_normalizeComponents path).not_mem_current listed

/-- A `..` at the bottom of the stack stays there. -/
private theorem getLast?_normalizeStep {kept : List Component}
    (leaves : kept.getLast? = some .parent)
    (component : Component) : (normalizeStep kept component).getLast? = some .parent := by
  have pushed : (component :: kept).getLast? = some .parent := by
    rw [List.getLast?_cons, leaves]
    rfl
  unfold normalizeStep
  split
  · exact leaves
  · rename_i text earlier
    cases earlier with
    | nil => cases leaves
    | cons last earlier => exact leaves
  · exact leaves
  · exact pushed

theorem getLast?_foldl_normalizeStep {kept : List Component}
    (leaves : kept.getLast? = some .parent) (components : List Component) :
    (components.foldl normalizeStep kept).getLast? = some .parent := by
  induction components generalizing kept with
  | nil => exact leaves
  | cons component rest induction => exact induction (getLast?_normalizeStep leaves component)

theorem isBelow_normalize_parent (path : Path) :
    path.normalize.isBelow ⟨".."⟩ = true ↔
      (normalizeComponents path.components).head? = some .parent := by
  have up : (Path.mk "..").components = [.parent] := by decide
  rw [isBelow, up, components_normalize]
  split
  · rename_i nothing
    rw [nothing]
    decide
  · rw [List.isPrefixOf_iff_prefix]
    cases normalizeComponents path.components with
    | nil => simp
    | cons first rest => simp [List.cons_prefix_cons, eq_comm]

theorem normalize_eq_current (path : Path) :
    path.normalize = ⟨"."⟩ ↔ normalizeComponents path.components = [] := by
  constructor
  · intro current
    have here : path.normalize.components = [.current] := by
      rw [current]
      decide
    rw [components_normalize] at here
    split at here
    · assumption
    · have inside : Component.current ∈ normalizeComponents path.components := by
        rw [here]
        exact List.mem_cons_self
      exact ((isNormal_normalizeComponents path).not_mem_current inside).elim
  · intro nothing
    rw [normalize, nothing]

/-- The pieces of a relative path stand behind those of the path before it, which loses the
empty piece at its end. -/
theorem pieces_join {path base : Path} (relative : path.isAbsolute = false)
    (nonempty : base.text ≠ "") :
    (base.join path).isAbsolute = base.isAbsolute ∧
    ∃ front, front ≠ [] ∧ (base.join path).pieces = front ++ path.pieces ∧
      (base.pieces = front ∨ base.pieces = front ++ [[]]) := by
  -- The separator between the two is written here or is already there.
  obtain ⟨front, joined, own⟩ : ∃ front : List Char,
      (base.join path).text.toList = front ++ '/' :: path.text.toList ∧
      (base.text.toList = front ∨ base.text.toList = front ++ ['/']) := by
    by_cases closed : base.text.toList.getLast? = some '/'
    · obtain ⟨front, text⟩ := List.getLast?_eq_some_iff.1 closed
      refine ⟨front, ?_, .inr text⟩
      simp [join, relative, text]
    · refine ⟨base.text.toList, ?_, .inl rfl⟩
      simp [join, relative, closed, nonempty]
  have cut (behind : List Char) : Text.split (· == '/') (front ++ '/' :: behind) =
      Text.split (· == '/') front ++ Text.split (· == '/') behind := by
    simp only [Text.split_eq_splitOnP]
    exact List.splitOnP_append_cons front behind (by simp)
  constructor
  · rw [isAbsolute, isAbsolute, joined]
    cases front with
    | nil =>
        rcases own with text | text
        · exact (nonempty (String.toList_eq_nil_iff.1 text)).elim
        · rw [text]
          rfl
    | cons first rest =>
        rcases own with text | text <;> rw [text] <;> rfl
  · refine ⟨Text.split (· == '/') front, ?_, ?_, ?_⟩
    · rw [Text.split_eq_splitOnP]
      exact List.splitOnP_ne_nil _ _
    · rw [pieces, joined, cut]
      rfl
    · rw [pieces]
      rcases own with text | text
      · exact .inl (by rw [text])
      · exact .inr (by rw [text, cut]; rfl)

theorem bareComponents_join {path : Path} (relative : path.isAbsolute = false) (base : Path) :
    (base.join path).bareComponents = base.bareComponents ++ path.bareComponents := by
  by_cases empty : base.text = ""
  · have whole : base.join path = path := by
      simp [join, relative, empty]
    have nothing : base.bareComponents = [] := by
      simp [bareComponents, isAbsolute, pieces, empty, Text.split, Component.ofPiece?]
    rw [whole, nothing, List.nil_append]
  · obtain ⟨absolute, front, _, joined, own⟩ := pieces_join relative empty
    have filtered : base.pieces.filterMap Component.ofPiece? =
        front.filterMap Component.ofPiece? := by
      rcases own with same | same
      · rw [same]
      · rw [same, List.filterMap_append]
        simp [Component.ofPiece?]
    rw [bareComponents, absolute, joined, List.filterMap_append, ← filtered, ← List.append_assoc]
    simp [bareComponents, relative]

/-- A path begins with `.` if it is relative and its first piece is `.`. -/
theorem components_eq (path : Path) :
    path.components =
      (if path.isAbsolute = false ∧ path.pieces.head? = some ['.'] then [.current] else []) ++
        path.bareComponents := by
  unfold components bareComponents
  cases absolute : path.isAbsolute with
  | true => simp
  | false =>
      simp only [Bool.false_eq_true, if_false, true_and, List.nil_append]
      split
      · rename_i rest first
        rw [first]
        rfl
      · rename_i other
        have unmarked : path.pieces.head? ≠ some ['.'] := by
          intro marked
          obtain ⟨rest, first⟩ := List.head?_eq_some_iff.1 marked
          exact other rest first
        rw [if_neg unmarked, List.nil_append]

private theorem pieces_of_isEntryName {name : String} (proper : IsEntryName name) :
    (Path.mk name).pieces = [name.toList] := by
  have free : ∀ piece ∈ [name.toList], '/' ∉ piece := by
    simpa using proper.noSeparator
  exact (Text.split_eq_iff (List.cons_ne_nil _ _) free).2 rfl

/-- The name of an entry is the last component of its path. -/
theorem components_child (base : Path) {name : String} (proper : IsEntryName name) :
    (base.child name).components = base.components ++ [.name name] := by
  have relative := isAbsolute_of_isEntryName proper
  have piece := pieces_of_isEntryName proper
  have bare : (Path.mk name).bareComponents = [.name name] := by
    rw [bareComponents, relative, piece]
    simp [Component.ofPiece?_of_isEntryName proper]
  have unmarked : ¬some name.toList = some ['.'] := by
    intro same
    exact proper.notCurrent (String.toList_injective (Option.some.inj same))
  rw [components_eq, components_eq, child, bareComponents_join relative, bare,
    ← List.append_assoc]
  congr 2
  by_cases empty : base.text = ""
  · have whole : base.join ⟨name⟩ = ⟨name⟩ := by
      simp [join, relative, empty]
    have nothing : base.pieces = [[]] := by
      rw [pieces, empty]
      rfl
    rw [whole, piece, nothing, List.head?_cons, List.head?_cons]
    simp [unmarked]
  · obtain ⟨absolute, front, nonempty, joined, own⟩ := pieces_join relative empty
    obtain ⟨first, rest, rfl⟩ := List.exists_cons_of_ne_nil nonempty
    have head : base.pieces.head? = some first := by
      rcases own with same | same <;> rw [same] <;> rfl
    rw [absolute, joined, head]
    rfl

/-- What is left in front of fillers, which stand for no component. -/
private theorem exists_append_dropFillers (absolute : Bool) (pieces : List (List Char)) :
    ∃ fillers, pieces = fillers ++ dropFillers absolute pieces ∧
      fillers.filterMap Component.ofPiece? = [] ∧
      (∀ last ∈ (dropFillers absolute pieces).head?, last ≠ []) ∧
      (absolute = false → dropFillers absolute pieces = [] →
        pieces.getLast? ≠ some ['.']) := by
  induction pieces with
  | nil => exact ⟨[], rfl, rfl, by simp [dropFillers], by simp⟩
  | cons piece earlier induction =>
      rw [dropFillers]
      split
      · rename_i filler
        obtain ⟨fillers, whole, silent, ends, unmarked⟩ := induction
        refine ⟨piece :: fillers, ?_, ?_, ends, ?_⟩
        · rw [List.cons_append, ← whole]
        · have nothing : Component.ofPiece? piece = none := by
            rw [Component.ofPiece?, if_pos]
            simp only [Bool.or_eq_true, Bool.and_eq_true] at filler ⊢
            exact filler.imp_right And.left
          rw [List.filterMap_cons_none nothing, silent]
        · intro relative dropped
          cases earlier with
          | nil =>
              subst relative
              rintro ⟨⟩
              simp at filler
          | cons next earlier =>
              rw [List.getLast?_cons_cons]
              exact unmarked relative dropped
      · rename_i kept
        refine ⟨[], rfl, rfl, ?_, fun _ dropped => (List.cons_ne_nil _ _ dropped).elim⟩
        rintro last ⟨⟩ rfl
        simp at kept

theorem isAbsolute_iff_head?_pieces {path : Path} (nonempty : path.text ≠ "") :
    path.isAbsolute = true ↔ path.pieces.head? = some [] := by
  rw [isAbsolute, pieces]
  obtain ⟨first, rest, written⟩ :=
    List.exists_cons_of_ne_nil (mt String.toList_eq_nil_iff.1 nonempty)
  rw [written, Text.split]
  by_cases separator : first = '/'
  · simp [separator]
  · simp only [List.head?_cons, beq_iff_eq, Option.some.injEq, separator, if_false, false_iff]
    split <;> simp

private theorem components_congr {left right : Path}
    (absolute : left.isAbsolute = right.isAbsolute)
    (first : left.pieces.head? = right.pieces.head?)
    (steps : left.pieces.filterMap Component.ofPiece? =
      right.pieces.filterMap Component.ofPiece?) : left.components = right.components := by
  rw [components_eq, components_eq, bareComponents, bareComponents, absolute, first, steps]

/-- Pieces that begin and mean what those of a path do make a path of the same components. -/
private theorem components_of_pieces {path : Path} (written : path.text ≠ "")
    {pieces : List (List Char)} (nonempty : pieces ≠ [])
    (free : ∀ piece ∈ pieces, '/' ∉ piece) (ends : ∀ last ∈ pieces.getLast?, last ≠ [])
    (begins : path.pieces.head? = pieces.head?)
    (steps : path.pieces.filterMap Component.ofPiece? =
      pieces.filterMap Component.ofPiece?) :
    (Path.mk (String.ofList (Text.join ['/'] pieces))).components = path.components := by
  have own : (Path.mk (String.ofList (Text.join ['/'] pieces))).pieces = pieces := by
    rw [Path.pieces, String.toList_ofList]
    exact (Text.split_eq_iff nonempty free).2 rfl
  have text : (Path.mk (String.ofList (Text.join ['/'] pieces))).text ≠ "" := by
    intro empty
    have nothing : [[]] = pieces := by
      rw [← own, Path.pieces, empty]
      rfl
    subst nothing
    exact ends [] rfl rfl
  apply components_congr
  · rw [Bool.eq_iff_iff, isAbsolute_iff_head?_pieces text, isAbsolute_iff_head?_pieces written,
      own, begins]
  · rw [own, begins]
  · rw [own, steps]

/-- A path whose pieces stand for no component is the root or empty. -/
private theorem components_of_silent {path : Path}
    (silent : path.pieces.filterMap Component.ofPiece? = [])
    (unmarked : path.isAbsolute = false → path.pieces.head? ≠ some ['.']) :
    (if path.isAbsolute then Path.mk "/" else ⟨""⟩).components = path.components := by
  rw [components_eq path, bareComponents, silent, List.append_nil]
  cases kind : path.isAbsolute with
  | true => rfl
  | false =>
      simp only [unmarked kind, and_false, if_false, Bool.false_eq_true, List.append_nil]
      rfl

/-- An entry lies in the directory whose child it is, whatever that one is called. -/
theorem exists_parent?_child (base : Path) {name : String} (proper : IsEntryName name) :
    ∃ parent, (base.child name).parent? = some parent ∧
      parent.components = base.components := by
  have relative := isAbsolute_of_isEntryName proper
  have piece := pieces_of_isEntryName proper
  by_cases empty : base.text = ""
  · obtain rfl : base = ⟨""⟩ := by
      rw [← empty]
    have whole : (Path.mk "").child name = ⟨name⟩ := by
      simp [child, join, relative]
    refine ⟨⟨""⟩, ?_, rfl⟩
    rw [whole, parent?, relative, piece, List.reverse_singleton,
      dropFillers_of_isEntryName proper]
    rfl
  · obtain ⟨absolute, front, nonempty, joined, own⟩ := pieces_join relative empty
    have same : base.pieces.filterMap Component.ofPiece? =
          front.filterMap Component.ofPiece? ∧ base.pieces.head? = front.head? := by
      obtain ⟨first, rest, rfl⟩ := List.exists_cons_of_ne_nil nonempty
      rcases own with same | same
      · rw [same]
        exact ⟨rfl, rfl⟩
      · rw [same, List.filterMap_append]
        exact ⟨List.append_nil _, rfl⟩
    obtain ⟨fillers, reversed, silent, ends, unmarked⟩ :=
      exists_append_dropFillers base.isAbsolute front.reverse
    have whole : front = (dropFillers base.isAbsolute front.reverse).reverse ++
        fillers.reverse := by
      rw [← List.reverse_append, ← reversed, List.reverse_reverse]
    have silentBehind : fillers.reverse.filterMap Component.ofPiece? = [] := by
      rw [List.filterMap_reverse, silent, List.reverse_nil]
    rw [child, parent?, absolute, joined, piece, List.reverse_append, List.reverse_singleton,
      List.singleton_append, dropFillers_of_isEntryName proper]
    cases left : dropFillers base.isAbsolute front.reverse with
    | nil =>
        simp only [left]
        refine ⟨_, rfl, components_of_silent ?_ ?_⟩
        · rw [same.1, whole, left, List.reverse_nil, List.nil_append, silentBehind]
        · intro kind
          rw [same.2, ← List.getLast?_reverse]
          exact unmarked kind left
    | cons last earlier =>
        simp only [left]
        refine ⟨_, rfl, ?_⟩
        rw [left] at whole ends
        apply components_of_pieces empty (by simp)
        · intro piece member slash
          have inFront : piece ∈ front := by
            rw [whole]
            exact List.mem_append_left _ member
          have listed : piece ∈ base.pieces := by
            rcases own with same | same
            · rw [same]
              exact inFront
            · rw [same]
              exact List.mem_append_left _ inFront
          exact (of_mem_pieces listed slash).2 rfl
        · intro final closes
          rw [List.getLast?_reverse] at closes
          exact ends final closes
        · rw [same.2, whole, List.head?_append_of_ne_nil _ (by simp)]
        · rw [same.1, whole, List.filterMap_append, silentBehind, List.append_nil]

theorem components_foldl_child (base : Path) {names : List String}
    (proper : ∀ name ∈ names, IsEntryName name) :
    (names.foldl child base).components = base.components ++ names.map .name := by
  induction names generalizing base with
  | nil => rw [List.foldl_nil, List.map_nil, List.append_nil]
  | cons name names induction =>
      obtain ⟨first, rest⟩ := List.forall_mem_cons.1 proper
      rw [List.foldl_cons, induction _ rest, components_child base first, List.map_cons,
        List.append_assoc, List.singleton_append]

/-- The steps down the given names. -/
abbrev descent (names : List String) : Path :=
  ofSteps (names.map .name)

theorem descent_text (names : List String) :
    (descent names).text = String.intercalate "/" names := by
  have texts : (names.map Component.name).map Component.text = names := by
    rw [List.map_map]
    exact List.map_id names
  rw [descent, ofSteps, texts]

theorem normalize_of_names {path : Path} {names : List String} (nonempty : names ≠ [])
    (normal : normalizeComponents path.components = names.map .name) :
    path.normalize = ⟨String.intercalate "/" names⟩ := by
  obtain ⟨first, rest, rfl⟩ := List.exists_cons_of_ne_nil nonempty
  rw [normalize, normal, ← descent_text]
  rfl

section Descent

variable {names : List String} (proper : ∀ name ∈ names, IsEntryName name)
include proper

theorem isStep_of_mem_names : ∀ step ∈ names.map Component.name, step.IsStep := by
  intro step listed
  obtain ⟨name, nameListed, rfl⟩ := List.mem_map.1 listed
  exact proper name nameListed

theorem components_descent : (descent names).components = names.map .name :=
  components_ofSteps (isStep_of_mem_names proper)

private theorem normalizeComponents_join_descent (base : Path) :
    normalizeComponents (base.join (descent names)).components =
      normalizeComponents base.components ++ names.map .name := by
  have steps := isStep_of_mem_names proper
  have bare : (descent names).bareComponents = names.map .name := by
    rw [bareComponents, isAbsolute_ofSteps steps, filterMap_pieces_ofSteps steps]
    rfl
  rw [normalizeComponents_components, bareComponents_join (isAbsolute_ofSteps steps), bare,
    normalizeComponents, List.foldl_append, foldl_normalizeStep_names, List.reverse_append,
    List.reverse_reverse, ← normalizeComponents, ← normalizeComponents_components]

/-- What lies below a directory begins with the normal form of the directory, in
which `.` counts as nothing. -/
theorem components_absolutize_descent (nonempty : names ≠ []) (base : Path) :
    ((descent names).absolutize base).components =
      base.normalize.components.filter (· != .current) ++ names.map .name := by
  rw [absolutize, components_normalize, normalizeComponents_join_descent proper,
    if_neg (by simpa using fun _ => nonempty), filter_components_normalize]

end Descent

end Path

end ElmAtlas
