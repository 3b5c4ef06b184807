import ElmAtlas.Proofs.Toml.Document
import ElmAtlas.State
import Mathlib.Data.List.Dedup

/-!
# The text of a state

The text that is written for a state can be read again, whatever its strings
hold.  Reading puts the listed paths into normal form, so a state whose paths are
different and in normal form comes back as it was.
-/

namespace ElmAtlas.State

open Toml Toml.Reader

def projectEntries (path : String) : Outline.Entries :=
  [("path", .value (.text path))]

/-- An array of tables has at least one element, so no projects are an array of
values. -/
def projectsItem (paths : List String) : Item :=
  if paths.isEmpty then .value (.array []) else .tables (paths.map projectEntries)

def settingsEntries (settings : Settings) : Outline.Entries :=
  [("elmCompilerPath", .value (.text settings.elmCompilerPath)),
    ("elmFormatPath", .value (.text settings.elmFormatPath)),
    ("elmTestPath", .value (.text settings.elmTestPath)),
    ("elmReviewPath", .value (.text settings.elmReviewPath)),
    ("isElmFormatOnSaveEnabled", .value (.boolean settings.isFormatOnSaveEnabled))]

def outline (state : State) : Outline.Entries :=
  [("elmProjects", projectsItem state.paths),
    ("settings", .table .header (settingsEntries state.settings))]

private theorem mapM_pathOfEntry? (paths : List String) :
    (Item.elementsToValues (paths.map projectEntries)).mapM pathOfEntry? = some paths := by
  induction paths with
  | nil => rfl
  | cons path paths induction =>
      have first : pathOfEntry? (.table (Item.entriesToValues (projectEntries path))) =
          some path := by
        simp [projectEntries, pathOfEntry?, Item.entriesToValues, Item.toValue, Value.fields?,
          Value.text?]
      simp [Item.elementsToValues, first, induction]

theorem settingsOf?_settingsEntries (settings : Settings) :
    settingsOf? (.table (Item.entriesToValues (settingsEntries settings))) = some settings := by
  simp [settingsOf?, settingsEntries, Item.entriesToValues, Item.toValue, Value.fields?,
    optionalField, Value.text?, Value.boolean?, List.lookup_cons]

theorem ofValue?_outline (state : State) :
    ofValue? (.table (Item.entriesToValues state.outline)) = some state := by
  have entries : (projectsItem state.paths).toValue.items?.bind (·.mapM pathOfEntry?) =
      some state.paths := by
    unfold projectsItem
    split
    next none => simp [Item.toValue, Value.items?, List.isEmpty_iff.1 none]
    next => simp [Item.toValue, Value.items?, mapM_pathOfEntry?]
  obtain ⟨values, listed, read⟩ := Option.bind_eq_some_iff.1 entries
  simp [ofValue?, outline, Item.entriesToValues, Item.toValue, Value.fields?, List.lookup_cons,
    settingsOf?_settingsEntries, listed, read]

section Lines

variable {header : List String} {entries opened result : Outline.Entries} {rest : List Char}
variable {key : String}

theorem reads_textLine (bare : IsBare key) {value : String}
    (inserts : Outline.insertBelow header [key] (.text value) entries = some opened)
    (later : Reads header opened rest result) :
    Reads header entries ((textLine key value).toList ++ rest) result := by
  have line := later.assignment bare (spells_text value) inserts
  unfold textLine quoteText
  simpa using line

theorem reads_booleanLine (bare : IsBare key) {value : Bool}
    (inserts : Outline.insertBelow header [key] (.boolean value) entries = some opened)
    (later : Reads header opened rest result) :
    Reads header entries ((booleanLine key value).toList ++ rest) result := by
  have line := later.assignment bare (spells_boolean value) inserts
  unfold booleanLine
  simpa using line

private theorem reads_header (later : Reads header entries rest result) :
    Reads header entries (State.header.toList ++ rest) result := by
  have firstPlain : ∀ character ∈
      " This file is automatically generated by elm-workspace.".toList,
      isPlain character = true := by
    simp [isPlain]
  have secondPlain : ∀ character ∈ " It is not intended for manual editing.".toList,
      isPlain character = true := by
    simp [isPlain]
  have whole := (later.blankLine.comment secondPlain).comment firstPlain
  unfold State.header
  rw [String.toList_append]
  simpa using whole

theorem reads_projectTable {earlier : List Outline.Entries} {path : String}
    (opens : Outline.openElement ["elmProjects"] entries =
      some [("elmProjects", .tables (earlier ++ [[]]))])
    (later : Reads ["elmProjects"]
      [("elmProjects", .tables (earlier ++ [projectEntries path]))] rest result) :
    Reads header entries ((projectTable path).toList ++ rest) result := by
  have inserts : Outline.insertBelow ["elmProjects"] ["path"] (.text path)
      [("elmProjects", .tables (earlier ++ [[]]))] =
        some [("elmProjects", .tables (earlier ++ [projectEntries path]))] := by
    rw [Outline.insertBelow_element (List.lookup_cons_self) rfl]
    simp [Outline.replace, projectEntries]
  have line := reads_textLine (by decide) inserts later.blankLine
  have whole : Reads header entries _ result := line.element (by decide) opens
  unfold projectTable
  simpa using whole

/-- The tables of further projects, behind those of `earlier` ones. -/
private theorem reads_projectTables {paths : List String} {earlier : List Outline.Entries}
    (later : ∀ header, Reads header
      [("elmProjects", .tables (earlier ++ paths.map projectEntries))] rest result) :
    Reads header [("elmProjects", .tables earlier)]
      ((String.join (paths.map projectTable)).toList ++ rest) result := by
  induction paths generalizing earlier header with
  | nil => simpa using later header
  | cons path paths induction =>
      have others : Reads ["elmProjects"]
          [("elmProjects", .tables (earlier ++ [projectEntries path]))]
          ((String.join (paths.map projectTable)).toList ++ rest) result :=
        induction fun header => by simpa using later header
      have opens : Outline.openElement ["elmProjects"] [("elmProjects", .tables earlier)] =
          some [("elmProjects", .tables (earlier ++ [[]]))] := by
        rw [Outline.openElement_next List.lookup_cons_self]
        simp [Outline.replace]
      simpa using reads_projectTable opens others

theorem insertBelow_settings (projects : Item) {inner : Outline.Entries}
    (absent : inner.lookup key = none) (value : Value) :
    Outline.insertBelow ["settings"] [key] value
        [("elmProjects", projects), ("settings", .table .header inner)] =
      some [("elmProjects", projects),
        ("settings", .table .header (inner ++ [(key, .value value)]))] := by
  have fresh : List.lookup "settings" [("elmProjects", projects)] = none := by
    simp [List.lookup_cons]
  exact Outline.insertBelow_last fresh absent value

theorem reads_settingsTable (settings : Settings) (projects : Item) :
    Reads header [("elmProjects", projects)] (settingsTable settings).toList
      [("elmProjects", projects), ("settings", .table .header (settingsEntries settings))] := by
  have opens : Outline.openTable ["settings"] [("elmProjects", projects)] =
      some [("elmProjects", projects), ("settings", .table .header [])] :=
    Outline.openTable_new (by simp [List.lookup_cons])
  have title (rest : List Char) :
      "[settings]\n".toList ++ rest = '[' :: "settings".toList ++ ']' :: '\n' :: rest := by
    simp
  unfold settingsTable
  simp only [String.toList_append, List.append_assoc]
  rw [title]
  refine Reads.table (by decide) opens ?_
  refine reads_textLine (by decide) (insertBelow_settings projects (by simp) _) ?_
  refine reads_textLine (by decide)
    (insertBelow_settings projects (by simp [List.lookup_cons]) _) ?_
  refine reads_textLine (by decide)
    (insertBelow_settings projects (by simp [List.lookup_cons]) _) ?_
  refine reads_textLine (by decide)
    (insertBelow_settings projects (by simp [List.lookup_cons]) _) ?_
  rw [← List.append_nil (booleanLine _ _).toList]
  refine reads_booleanLine (by decide)
    (insertBelow_settings projects (by simp [List.lookup_cons]) _) ?_
  exact reads_nil _ _

/-- Only the first project opens the array. -/
private theorem reads_projects {paths : List String}
    (later : ∀ header, Reads header [("elmProjects", projectsItem paths)] rest result) :
    Reads [] []
      ((if paths.isEmpty then "elmProjects = []\n\n"
        else String.join (paths.map projectTable)).toList ++ rest) result := by
  cases paths with
  | nil =>
      have inserts : Outline.insertBelow [] ["elmProjects"] (.array []) [] =
          some [("elmProjects", projectsItem [])] :=
        Outline.insertBelow_top rfl _
      have line := (later []).blankLine.assignment (by decide) spells_empty inserts
      simpa using line
  | cons path paths =>
      have opens : Outline.openElement ["elmProjects"] [] =
          some [("elmProjects", .tables ([] ++ [[]]))] :=
        Outline.openElement_first rfl
      have others : Reads ["elmProjects"] [("elmProjects", .tables ([] ++ [projectEntries path]))]
          ((String.join (paths.map projectTable)).toList ++ rest) result :=
        reads_projectTables later
      have whole : Reads [] [] _ result := reads_projectTable opens others
      simpa using whole

theorem reads_render (state : State) : Reads [] [] state.render.toList state.outline := by
  have whole := reads_header (reads_projects fun header =>
    reads_settingsTable state.settings (projectsItem state.paths))
  unfold render outline
  simp only [String.toList_append, List.append_assoc]
  exact whole

end Lines

/-- What was kept and does not come again stays in front, and of everything that comes
the last occurrence is kept. -/
private theorem foldl_keepLast (kept paths : List String) :
    paths.foldl keepLast kept = kept.filter (· ∉ paths) ++ paths.dedup := by
  induction paths generalizing kept with
  | nil => simp
  | cons path paths induction =>
      have stays : (kept.filter (· != path)).filter (· ∉ paths) =
          kept.filter (· ∉ path :: paths) := by
        rw [List.filter_filter]
        refine List.filter_congr fun other _ => ?_
        rw [Bool.eq_iff_iff]
        simp [and_comm]
      rw [List.foldl_cons, induction, keepLast, List.filter_append, stays, List.append_assoc]
      by_cases again : path ∈ paths
      · rw [List.dedup_cons_of_mem again]
        simp [again]
      · rw [List.dedup_cons_of_notMem again]
        simp [again]

theorem normalizePaths_eq_dedup (paths : List String) :
    normalizePaths paths = (paths.map normalizeEntry).dedup := by
  rw [normalizePaths, foldl_keepLast]
  rfl

theorem normalizePaths_eq_self {paths : List String} (distinct : paths.Nodup)
    (normal : ∀ path ∈ paths, normalizeEntry path = path) : normalizePaths paths = paths := by
  have unchanged : paths.map normalizeEntry = paths :=
    (List.map_congr_left normal).trans (List.map_id paths)
  rw [normalizePaths_eq_dedup, unchanged]
  exact List.dedup_eq_self.2 distinct

theorem of_mem_normalizePaths {paths : List String} {path : String}
    (member : path ∈ normalizePaths paths) : ∃ entry ∈ paths, normalizeEntry entry = path := by
  rw [normalizePaths_eq_dedup, List.mem_dedup] at member
  exact List.mem_map.1 member

theorem head?_render (state : State) : state.render.toList.head? = some '#' := by
  have first : State.header.toList.head? = some '#' := by
    unfold State.header
    simp
  simp [render, first]

/-- Whatever the strings of a state are, its text is read, and only the paths
are put into normal form. -/
theorem parse_render (state : State) :
    parse state.render = .ok { state with paths := normalizePaths state.paths } := by
  have noMark : state.render.toList.head? ≠ some '\uFEFF' := by
    rw [head?_render]
    decide
  rw [parse, read?_of_reads noMark (reads_render state), Option.bind_some, ofValue?_outline]

/-- A state with different paths in normal form is read back from its text, with
whatever characters its strings have. -/
theorem parse_render_eq_self (state : State) (distinct : state.paths.Nodup)
    (normal : ∀ path ∈ state.paths, normalizeEntry path = path) :
    parse state.render = .ok state := by
  rw [parse_render, normalizePaths_eq_self distinct normal]

/-- Strings that need every form of quotation, some of them escapes as well. -/
def awkward : State where
  paths := ["/it's \"here\"/elm.json", "../two\nlines/''\"\"\"'/elm.json", "."]
  settings := {
    elmCompilerPath := "\n\"\"\"\"\"\\ '''' \t\r\u0001\""
    elmFormatPath := "'\\\n''"
    elmTestPath := "\"\"\n\"\""
    elmReviewPath := "c:\\tools\\\"review\""
    isFormatOnSaveEnabled := true }

theorem parse_render_eq_self_awkward :
    awkward.paths.Nodup ∧ (∀ path ∈ awkward.paths, normalizeEntry path = path) ∧
      parse awkward.render = .ok awkward := by
  have distinct : awkward.paths.Nodup := by decide
  have normal : ∀ path ∈ awkward.paths, normalizeEntry path = path := by decide +kernel
  exact ⟨distinct, normal, parse_render_eq_self awkward distinct normal⟩

end ElmAtlas.State
