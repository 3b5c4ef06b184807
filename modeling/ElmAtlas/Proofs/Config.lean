import ElmAtlas.Config
import ElmAtlas.Proofs.Disk.Writing
import ElmAtlas.Proofs.State.Codec

/-!
# Saved configurations

A configuration that was saved is loaded as it was: every path comes back with all its
characters, an empty one too, and an option that was not set is not set afterwards.  A
table is written even when it has no line, so the text is the same two tables for every
configuration.
-/

namespace ElmAtlas

namespace Toml

theorem lookup_entriesToValues (entries : Outline.Entries) (key : String) :
    (Item.entriesToValues entries).lookup key = (entries.lookup key).map Item.toValue := by
  induction entries with
  | nil => rfl
  | cons entry entries induction =>
      obtain ⟨head, item⟩ := entry
      rw [Item.entriesToValues, List.lookup_cons, List.lookup_cons, induction]
      cases key == head <;> rfl

/-- An option that is not set has no entry. -/
def optionalEntry (key : String) (value : Option Value) : Outline.Entries :=
  value.toList.map fun value => (key, .value value)

theorem lookup_optionalEntry (key other : String) (value : Option Value) :
    (optionalEntry key value).lookup other = if other = key then value.map .value else none := by
  cases value with
  | none => simp [optionalEntry]
  | some value =>
      by_cases same : other = key
      · simp [optionalEntry, same]
      · simp [optionalEntry, List.lookup_cons, beq_eq_false_iff_ne.2 same, same]

theorem toValue_comp_value : Item.toValue ∘ Item.value = id := by
  funext value
  rw [Function.comp_apply, Item.toValue, id]

end Toml

namespace Config

open Toml Toml.Reader

def pathValue? (path : Option Path) : Option Value :=
  path.map fun path => .text path.text

def toolEntries (config : Config) : Outline.Entries :=
  optionalEntry "elm" (pathValue? config.elm) ++
    optionalEntry "elm-format" (pathValue? config.elmFormat) ++
    optionalEntry "elm-test" (pathValue? config.elmTest) ++
    optionalEntry "elm-review" (pathValue? config.elmReview)

def editorEntries (config : Config) : Outline.Entries :=
  optionalEntry "format-on-save" (config.formatOnSave.map .boolean)

def outline (config : Config) : Outline.Entries :=
  [("toolchain", .table .header config.toolEntries),
    ("editor", .table .header config.editorEntries)]

private theorem pathField?_pathValue? (path : Option Path) :
    pathField? (pathValue? path) = some path := by
  cases path <;> rfl

private theorem optionalField_boolean (value : Option Bool) :
    optionalField Value.boolean? (value.map .boolean) = some value := by
  cases value <;> rfl

theorem ofValue?_outline (config : Config) :
    ofValue? (.table (Item.entriesToValues config.outline)) = some config := by
  have sections : (Value.table (Item.entriesToValues config.outline)).fields?
      ["toolchain", "editor"] = some [some (.table (Item.entriesToValues config.toolEntries)),
        some (.table (Item.entriesToValues config.editorEntries))] := by
    simp [Value.fields?, outline, Item.entriesToValues, Item.toValue, List.lookup_cons]
  have tools : (Value.table (Item.entriesToValues config.toolEntries)).fields?
      ["elm", "elm-format", "elm-test", "elm-review"] =
        some [pathValue? config.elm, pathValue? config.elmFormat, pathValue? config.elmTest,
          pathValue? config.elmReview] := by
    simp [Value.fields?, toolEntries, lookup_entriesToValues, List.lookup_append,
      lookup_optionalEntry, toValue_comp_value]
  have switches : (Value.table (Item.entriesToValues config.editorEntries)).fields?
      ["format-on-save"] = some [config.formatOnSave.map .boolean] := by
    simp [Value.fields?, editorEntries, lookup_entriesToValues, lookup_optionalEntry,
      ← Function.comp_assoc, toValue_comp_value]
  simp [ofValue?, sections, tools, switches, pathField?_pathValue?, optionalField_boolean]

section Lines

variable {before inner result : Outline.Entries} {rest : List Char} {table key : String}

theorem reads_pathLine (bare : IsBare key) (fresh : before.lookup table = none)
    (absent : inner.lookup key = none) {path : Option Path}
    (later : Reads [table]
      (before ++ [(table, .table .header (inner ++ optionalEntry key (pathValue? path)))])
      rest result) :
    Reads [table] (before ++ [(table, .table .header inner)])
      ((pathLine key path).toList ++ rest) result := by
  cases path with
  | none => simpa [pathLine, pathValue?, optionalEntry] using later
  | some path =>
      exact State.reads_textLine bare (Outline.insertBelow_last fresh absent _) later

private theorem reads_formatOnSave (fresh : before.lookup table = none) (value : Option Bool) :
    Reads [table] (before ++ [(table, .table .header [])])
      (match value with
        | some value => State.booleanLine "format-on-save" value
        | none => "").toList
      (before ++ [(table, .table .header
        (optionalEntry "format-on-save" (value.map .boolean)))]) := by
  cases value with
  | none => exact reads_nil _ _
  | some value =>
      have bare : IsBare "format-on-save" := by decide
      have absent : List.lookup "format-on-save" ([] : Outline.Entries) = none := rfl
      have line := State.reads_booleanLine bare
        (Outline.insertBelow_last fresh absent (.boolean value)) (reads_nil [table] _)
      rwa [List.append_nil] at line

/-- The tables of the tools and of the editor, in this order. -/
theorem reads_render (config : Config) : Reads [] [] config.render.toList config.outline := by
  have opensTools : Outline.openTable ["toolchain"] [] =
      some ([] ++ [("toolchain", .table .header [])]) := Outline.openTable_new rfl
  have opensEditor (tools : Item) : Outline.openTable ["editor"] [("toolchain", tools)] =
      some ([("toolchain", tools)] ++ [("editor", .table .header [])]) :=
    Outline.openTable_new (by simp [List.lookup_cons])
  have fresh (tools : Item) : List.lookup "editor" [("toolchain", tools)] = none := by
    simp [List.lookup_cons]
  have toolsTitle (rest : List Char) :
      "[toolchain]\n".toList ++ rest = '[' :: "toolchain".toList ++ ']' :: '\n' :: rest := by
    simp
  have editorTitle (rest : List Char) :
      "\n[editor]\n".toList ++ rest = '\n' :: '[' :: "editor".toList ++ ']' :: '\n' :: rest := by
    simp
  unfold render
  simp only [String.toList_append, List.append_assoc]
  rw [toolsTitle, editorTitle]
  refine Reads.table (by decide) opensTools ?_
  refine reads_pathLine (by decide) rfl rfl ?_
  refine reads_pathLine (by decide) rfl (by simp [lookup_optionalEntry]) ?_
  refine reads_pathLine (by decide) rfl (by simp [List.lookup_append, lookup_optionalEntry]) ?_
  refine reads_pathLine (by decide) rfl (by simp [List.lookup_append, lookup_optionalEntry]) ?_
  refine Reads.blankLine (Reads.table (by decide) (opensEditor _) ?_)
  exact reads_formatOnSave (fresh _) config.formatOnSave

end Lines

theorem head?_render (config : Config) : config.render.toList.head? = some '[' := by
  unfold render
  simp only [String.toList_append, List.append_assoc]
  rfl

/-- Whatever a configuration sets, its text is read as it. -/
theorem parse_render (config : Config) : parse config.render = .ok config := by
  have noMark : config.render.toList.head? ≠ some '\uFEFF' := by
    rw [head?_render]
    decide
  rw [parse, read?_of_reads noMark (reads_render config), Option.bind_some, ofValue?_outline]

/-- Saving makes the directory of a file and writes the file. -/
theorem save_eq_iff {config : Config} {disk written : Disk} {path : Path} :
    config.save disk path = ⟨written, none⟩ ↔
      (makeParent disk path).fault = none ∧
        (makeParent disk path).disk.writeFile path config.render.toUTF8 = .ok written := by
  unfold save Attempt.andThen
  cases made : (makeParent disk path).fault with
  | some fault =>
      refine iff_of_false (fun whole => ?_) (by simp)
      have clean : (makeParent disk path).fault = none := congrArg Attempt.fault whole
      rw [made] at clean
      cases clean
  | none =>
      dsimp only
      cases (makeParent disk path).disk.writeFile path config.render.toUTF8 with
      | error fault => simp [Attempt.ofExcept, Attempt.mapFault]
      | ok changed => simp [Attempt.ofExcept, Attempt.mapFault]

/-- A configuration that was saved under a path is loaded from it as it was, and the path
takes any other configuration as well. -/
theorem load_saved (config : Config) (disk : Disk) (path : Path)
    (saved : (config.save disk path).fault = none) :
    load (config.save disk path).disk path = .ok config ∧
      ∀ other : Config, (other.save disk path).fault = none := by
  have whole : config.save disk path = ⟨(config.save disk path).disk, none⟩ := by
    rw [← saved]
  obtain ⟨made, written⟩ := save_eq_iff.1 whole
  constructor
  · rw [load, Disk.readText_writeFile written]
    exact congrArg (withContext _) (parse_render config)
  · intro other
    obtain ⟨changed, otherWritten⟩ := Disk.exists_writeFile written other.render.toUTF8
    rw [save_eq_iff.2 ⟨made, otherWritten⟩]

/-- Every kind of quotation, an empty path and an option that is not set. -/
def awkward : Config where
  elm := some ⟨"\n\"\"\"\"\"\\ '''' \t\r\u0001\""⟩
  elmFormat := some ⟨""⟩
  elmReview := some ⟨"c:\\tools\\\"it's\""⟩
  formatOnSave := some false

/-- A file that may be run stands where the configuration goes. -/
def occupied : Disk where
  top := .directory [("work", .directory [("config.toml", .file "old".toUTF8 true)])]
  cwd := ⟨"/work"⟩

theorem load_saved_awkward :
    (awkward.save occupied ⟨"../work/./config.toml"⟩).fault = none ∧
      load (awkward.save occupied ⟨"../work/./config.toml"⟩).disk ⟨"../work/./config.toml"⟩ =
        .ok awkward := by
  have saved : (awkward.save occupied ⟨"../work/./config.toml"⟩).fault = none := by
    decide +kernel
  exact ⟨saved, (load_saved awkward occupied ⟨"../work/./config.toml"⟩ saved).1⟩

end Config

end ElmAtlas
