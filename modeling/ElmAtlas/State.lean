import ElmAtlas.Disk
import ElmAtlas.Project
import ElmAtlas.Settings
import ElmAtlas.Toml.Reader

/-!
# Persisted state

The state of a workspace lists the manifests that are attached, in order, and
the settings.  It is kept as a TOML document below the workspace root.
-/

namespace ElmAtlas

/-- The directory below a workspace root that holds its own files. -/
def workspaceDirectory : String :=
  ".elm-workspace"

structure State where
  paths : List String
  settings : Settings
  deriving DecidableEq, Repr

namespace State

/-- How a state lists a manifest. -/
def entryOf (manifestPath : Path) : String :=
  manifestPath.slashText

def ofProjects (projects : List Project) (settings : Settings) : State :=
  ⟨projects.map fun project => entryOf project.manifestPath, settings⟩

/-- Where the state of a workspace is kept. -/
def file (root : Path) : Path :=
  (root.child workspaceDirectory).child "state.toml"

def header : String :=
  "# This file is automatically generated by elm-workspace.\n" ++
    "# It is not intended for manual editing.\n\n"

def textLine (key value : String) : String :=
  key ++ " = " ++ Toml.quoteText value ++ "\n"

def booleanLine (key : String) (value : Bool) : String :=
  key ++ " = " ++ (if value then "true" else "false") ++ "\n"

def projectTable (path : String) : String :=
  "[[elmProjects]]\n" ++ textLine "path" path ++ "\n"

def settingsTable (settings : Settings) : String :=
  "[settings]\n" ++
    textLine "elmCompilerPath" settings.elmCompilerPath ++
    textLine "elmFormatPath" settings.elmFormatPath ++
    textLine "elmTestPath" settings.elmTestPath ++
    textLine "elmReviewPath" settings.elmReviewPath ++
    booleanLine "isElmFormatOnSaveEnabled" settings.isFormatOnSaveEnabled

/-- Equal states have equal texts. -/
def render (state : State) : String :=
  let projects :=
    if state.paths.isEmpty then "elmProjects = []\n\n"
    else String.join (state.paths.map projectTable)
  header ++ projects ++ settingsTable state.settings

def pathOfEntry? (value : Toml.Value) : Option String := do
  match ← value.fields? ["path"] with
  | [some path] => path.text?
  | _ => none

def settingsOf? (value : Toml.Value) : Option Settings := do
  match ← value.fields? ["elmCompilerPath", "elmFormatPath", "elmTestPath", "elmReviewPath",
      "isElmFormatOnSaveEnabled"] with
  | [compiler, format, test, review, onSave] =>
      let text (field : Option Toml.Value) : Option String :=
        (Toml.optionalField Toml.Value.text? field).map (·.getD "")
      return {
        elmCompilerPath := ← text compiler
        elmFormatPath := ← text format
        elmTestPath := ← text test
        elmReviewPath := ← text review
        isFormatOnSaveEnabled :=
          (← Toml.optionalField Toml.Value.boolean? onSave).getD false }
  | _ => none

/-- The state as a document lists it. -/
def ofValue? (value : Toml.Value) : Option State := do
  match ← value.fields? ["elmProjects", "settings"] with
  | [projects, settings] =>
      let entries ← (projects.getD (.array [])).items?
      return {
        paths := ← entries.mapM pathOfEntry?
        settings := ← settingsOf? (settings.getD (.table [])) }
  | _ => none

def normalizeEntry (path : String) : String :=
  entryOf (Path.normalize ⟨path⟩)

/-- Keeps the last of each entry. -/
def keepLast (kept : List String) (path : String) : List String :=
  kept.filter (· != path) ++ [path]

/-- Entries in normal form; repeated ones collapse onto the last. -/
def normalizePaths (paths : List String) : List String :=
  (paths.map normalizeEntry).foldl keepLast []

/-- What is said of any document that is not the expected one. -/
def documentFault : Failure :=
  .ofText "TOML error"

def parse (text : String) : Except Failure State :=
  match (Toml.read? text).bind ofValue? with
  | some state => .ok { state with paths := normalizePaths state.paths }
  | none => .error (documentFault.within "failed to parse workspace state")

def load (disk : Disk) (path : Path) : Except Failure State :=
  match disk.readText path with
  | .error fault =>
      .error ⟨s!"failed to read state file: {path}", [fault.message]⟩
  | .ok text => withContext s!"invalid state file: {path}" (parse text)

/-- Loads a state that may not have been saved yet. -/
def loadIfPresent (disk : Disk) (path : Path) : Except Failure (Option State) :=
  if disk.isPresent path then some <$> load disk path else .ok none

def save (state : State) (disk : Disk) (path : Path) : Attempt Failure :=
  disk.replaceFile path state.render

end State

end ElmAtlas
