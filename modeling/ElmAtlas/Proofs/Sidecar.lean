import ElmAtlas.Proofs.Manifest.WellFormed
import ElmAtlas.Proofs.Text.Octets

/-!
# Tests directories and normal forms

A tests directory is resolved segment by segment and given up at the first `..` that
leads out of the project.  A path is normalised with a stack, which keeps such a `..` at
its bottom.  So the two agree: the tests directory is the normal form of its text, read
with `/` for every `\`.  Where the normal form begins with `..` the directory leaves the
project, and where it is `.` the directory has no name.
-/

namespace ElmAtlas

namespace Text

/-- Cutting at both separators is cutting at one that stands for both. -/
private theorem split_map_slash (characters : List Char) :
    split (· == '/') (characters.map fun character =>
        if character == '\\' then '/' else character) =
      split (fun character => character == '/' || character == '\\') characters := by
  induction characters with
  | nil => rfl
  | cons character rest induction =>
      rw [List.map_cons, split, split, induction]
      by_cases backslash : character = '\\'
      · simp [backslash]
      · simp [backslash]

end Text

namespace Path

private theorem pieces_slashText (text : String) :
    (Path.mk (Path.mk text).slashText).pieces =
      Text.split (fun character => character == '/' || character == '\\') text.toList := by
  rw [pieces, slashText, String.toList_ofList, Text.split_map_slash]

end Path

namespace Sidecar

/-- The steps that segments stand for. -/
def steps (segments : List String) : List Component :=
  segments.filterMap fun segment => Component.ofPiece? segment.toList

private theorem steps_portablePieces (text : String) :
    steps (Path.portablePieces text) =
      (Path.mk (Path.mk text).slashText).pieces.filterMap Component.ofPiece? := by
  rw [steps, Path.pieces_slashText, Path.portablePieces, Text.splitNonempty, List.filterMap_map,
    List.filterMap_filter]
  apply List.filterMap_congr
  intro piece _
  cases piece with
  | nil => rfl
  | cons first rest => simp

/-- What a stack of components tells about segments: they lead down the names on the stack,
or out of the project if the stack has a `..` at its bottom. -/
inductive Tells (stack : List Component) : Option (List String) → Prop where
  | stays {names : List String} (down : stack.reverse = names.map .name) :
      Tells stack (some names)
  | leaves (up : stack.reverse.head? = some .parent) : Tells stack none

/-- Segments are resolved as their steps are normalised. -/
private theorem tells_resolveSegments (kept : List String) {segments : List String}
    (proper : ∀ name ∈ segments, name ≠ "" ∧ '/' ∉ name.toList) :
    Tells ((steps segments).foldl Path.normalizeStep (kept.map .name))
      (resolveSegments kept segments) := by
  fun_induction resolveSegments kept segments with
  | case1 kept => exact .stays List.map_reverse.symm
  | case2 kept rest induction => exact induction (List.forall_mem_cons.1 proper).2
  | case3 rest =>
      apply Tells.leaves
      rw [List.head?_reverse]
      exact Path.getLast?_foldl_normalizeStep List.getLast?_singleton (steps rest)
  | case4 rest last earlier induction => exact induction (List.forall_mem_cons.1 proper).2
  | case5 kept segment rest notCurrent notParent induction =>
      obtain ⟨first, later⟩ := List.forall_mem_cons.1 proper
      have named : Component.ofPiece? segment.toList = some (.name segment) :=
        Component.ofPiece?_of_isEntryName ⟨first.1, notCurrent, notParent, first.2⟩
      have step : steps (segment :: rest) = .name segment :: steps rest := by
        rw [steps, List.filterMap_cons, named]
        rfl
      rw [step, List.foldl_cons]
      exact induction later

private theorem tells_portablePieces (text : String) :
    Tells ((steps (Path.portablePieces text)).foldl Path.normalizeStep [])
      (resolveSegments [] (Path.portablePieces text)) :=
  tells_resolveSegments [] fun _ => Path.of_mem_portablePieces

/-- A text that begins with no separator and whose second byte is no colon. -/
structure IsRelative (text : String) : Prop where
  noSlash : text.toList.head? ≠ some '/'
  noBackslash : text.toList.head? ≠ some '\\'
  noDrive : text.toUTF8.toList[1]? ≠ some ':'.toUInt8

private theorem looksAbsolute_cons (first : Char) (rest : List Char) :
    looksAbsolute (first :: rest) = true ↔
      first = '/' ∨ first = '\\' ∨ first.utf8Size = 1 ∧ rest.head? = some ':' := by
  by_cases slash : first = '/'
  · simp [slash, looksAbsolute]
  · by_cases backslash : first = '\\'
    · simp [backslash, looksAbsolute]
    · cases rest with
      | nil => simp [slash, backslash, looksAbsolute]
      | cons second rest =>
          by_cases colon : second = ':' <;> simp [slash, backslash, colon, looksAbsolute]

theorem looksAbsolute_eq_false_iff (characters : List Char) :
    looksAbsolute characters = false ↔ IsRelative (String.ofList characters) := by
  cases characters with
  | nil =>
      constructor
      · intro _
        exact ⟨by decide, by decide, by decide +kernel⟩
      · intro _
        rfl
  | cons first rest =>
      have second := Octets.second_encoded_eq_some (show ':'.toNat < 128 by decide) first rest
      rw [← Bool.not_eq_true, looksAbsolute_cons, ← second, ← Octets.toList_toUTF8_ofList, not_or,
        not_or]
      constructor
      · intro free
        exact ⟨by simpa using free.1, by simpa using free.2.1, free.2.2⟩
      · intro relative
        exact ⟨by simpa using relative.noSlash, by simpa using relative.noBackslash,
          relative.noDrive⟩

namespace IsRelative

variable {text : String} (relative : IsRelative text)
include relative

theorem isAbsolute_slashText : (Path.mk (Path.mk text).slashText).isAbsolute = false := by
  have noSlash := relative.noSlash
  have noBackslash := relative.noBackslash
  rw [Path.isAbsolute, Path.slashText, String.toList_ofList, List.head?_map]
  cases begins : text.toList.head? with
  | none => rfl
  | some first =>
      rw [begins, Ne, Option.some_inj] at noSlash noBackslash
      simp [noSlash, noBackslash]

private theorem normalizeComponents_slashText :
    Path.normalizeComponents (Path.mk (Path.mk text).slashText).components =
      ((steps (Path.portablePieces text)).foldl Path.normalizeStep []).reverse := by
  rw [Path.normalizeComponents_components, Path.bareComponents, relative.isAbsolute_slashText,
    if_neg Bool.false_ne_true, List.nil_append, Path.normalizeComponents, steps_portablePieces]

end IsRelative

/-- The normal form of a text without the blanks around it and with `/` for every `\`. -/
def plainForm (value : String) : Path :=
  (Path.mk (Path.mk (Text.trimmed value)).slashText).normalize

variable {value : String}

theorem normalizeTestDirectory_of_not_isRelative (absolute : ¬IsRelative (Text.trimmed value)) :
    normalizeTestDirectory value = .error (.testDirectory value .notRelative) := by
  rw [Text.trimmed, ← looksAbsolute_eq_false_iff, Bool.not_eq_false] at absolute
  rw [normalizeTestDirectory, if_pos absolute]

/-- The three outcomes of resolving a relative text, told by its plain form. -/
theorem normalizeTestDirectory_of_isRelative (relative : IsRelative (Text.trimmed value)) :
    normalizeTestDirectory value =
      if (plainForm value).isBelow ⟨".."⟩ = true then
        .error (.testDirectory value .leavesProject)
      else if plainForm value = ⟨"."⟩ then
        .error (.testDirectory value .namesNothing)
      else
        .ok (plainForm value) := by
  have seemsRelative := (looksAbsolute_eq_false_iff (Text.trim value.toList)).2 relative
  have normal := relative.normalizeComponents_slashText
  have told := tells_portablePieces (Text.trimmed value)
  rw [normalizeTestDirectory, if_neg (ne_true_of_eq_false seemsRelative), ← Text.trimmed]
  generalize resolveSegments [] (Path.portablePieces (Text.trimmed value)) = outcome at told ⊢
  cases told with
  | leaves up =>
      rw [← normal, ← Path.isBelow_normalize_parent, ← plainForm] at up
      rw [if_pos up]
  | @stays names down =>
      rw [down] at normal
      have inside : (plainForm value).isBelow ⟨".."⟩ ≠ true := by
        rw [plainForm, Ne, Path.isBelow_normalize_parent, normal]
        cases names <;> simp
      rw [if_neg inside]
      cases names with
      | nil =>
          rw [List.map_nil, ← Path.normalize_eq_current, ← plainForm] at normal
          rw [if_pos normal]
      | cons first rest =>
          have named : plainForm value ≠ ⟨"."⟩ := by
            rw [plainForm, Ne, Path.normalize_eq_current, normal]
            exact List.cons_ne_nil _ _
          rw [if_neg named, plainForm, Path.normalize_of_names (List.cons_ne_nil first rest) normal]

/-- A tests directory is accepted exactly if its text is relative and its plain form is not
`.` and has no `..` as its first component, and then the plain form is the result.  Otherwise
there is an objection to the value: to a text that is not relative, else to a plain form that
begins with `..`, else to the plain form `.`. -/
theorem normalizeTestDirectory_agrees (value : String) :
    (normalizeTestDirectory value = .ok (plainForm value) ↔
      IsRelative (Text.trimmed value) ∧ plainForm value ≠ ⟨"."⟩ ∧
        (plainForm value).isBelow ⟨".."⟩ = false) ∧
    ((∃ objection, normalizeTestDirectory value = .error (.testDirectory value objection)) ↔
      ¬(IsRelative (Text.trimmed value) ∧ plainForm value ≠ ⟨"."⟩ ∧
        (plainForm value).isBelow ⟨".."⟩ = false)) ∧
    (normalizeTestDirectory value = .error (.testDirectory value .notRelative) ↔
      ¬IsRelative (Text.trimmed value)) ∧
    (normalizeTestDirectory value = .error (.testDirectory value .leavesProject) ↔
      IsRelative (Text.trimmed value) ∧ (plainForm value).isBelow ⟨".."⟩ = true) ∧
    (normalizeTestDirectory value = .error (.testDirectory value .namesNothing) ↔
      IsRelative (Text.trimmed value) ∧ plainForm value = ⟨"."⟩) := by
  by_cases relative : IsRelative (Text.trimmed value)
  · rw [normalizeTestDirectory_of_isRelative relative]
    have apart : (Path.mk ".").isBelow ⟨".."⟩ = false := by decide
    by_cases outside : (plainForm value).isBelow ⟨".."⟩ = true
    · have named : plainForm value ≠ ⟨"."⟩ := by
        intro current
        rw [current, apart] at outside
        cases outside
      simp [relative, outside, named]
    · by_cases current : plainForm value = ⟨"."⟩
      · simp [relative, current, apart]
      · simp [relative, outside, current]
  · simp [relative, normalizeTestDirectory_of_not_isRelative relative]

/-- Only a whole component `..` leads out of the project, and only a colon behind one byte
makes a text absolute. -/
example :
    normalizeTestDirectory " é:\\..//.\\..spec/a/.. " = .ok ⟨"..spec"⟩ ∧
    normalizeTestDirectory "a/..\\..\\tests" =
      .error (.testDirectory "a/..\\..\\tests" .leavesProject) := by
  decide +kernel

end Sidecar

end ElmAtlas
