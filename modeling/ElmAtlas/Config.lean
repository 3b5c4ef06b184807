import ElmAtlas.State

/-!
# Configuration

A configuration may name the tools and say whether files are formatted when
saved.  There is one for the user and one for the workspace; what the workspace
sets wins, key by key.
-/

namespace ElmAtlas

structure Config where
  elm : Option Path := none
  elmFormat : Option Path := none
  elmTest : Option Path := none
  elmReview : Option Path := none
  formatOnSave : Option Bool := none
  deriving DecidableEq, Repr, Inhabited

namespace Config

def fileName : String :=
  "config.toml"

def file (root : Path) : Path :=
  (root.child workspaceDirectory).child fileName

def pathLine (key : String) (path : Option Path) : String :=
  match path with
  | some path => State.textLine key path.text
  | none => ""

def render (config : Config) : String :=
  let onSave :=
    match config.formatOnSave with
    | some value => State.booleanLine "format-on-save" value
    | none => ""
  "[toolchain]\n" ++ pathLine "elm" config.elm ++ pathLine "elm-format" config.elmFormat ++
    pathLine "elm-test" config.elmTest ++ pathLine "elm-review" config.elmReview ++
    "\n[editor]\n" ++ onSave

def pathField? (field : Option Toml.Value) : Option (Option Path) :=
  (Toml.optionalField Toml.Value.text? field).map (·.map Path.mk)

def ofValue? (value : Toml.Value) : Option Config := do
  match ← value.fields? ["toolchain", "editor"] with
  | [toolchain, editor] =>
      let tools ← (toolchain.getD (.table [])).fields?
        ["elm", "elm-format", "elm-test", "elm-review"]
      let switches ← (editor.getD (.table [])).fields? ["format-on-save"]
      match tools, switches with
      | [elm, format, test, review], [onSave] =>
          return {
            elm := ← pathField? elm
            elmFormat := ← pathField? format
            elmTest := ← pathField? test
            elmReview := ← pathField? review
            formatOnSave := ← Toml.optionalField Toml.Value.boolean? onSave }
      | _, _ => none
  | _ => none

def parse (text : String) : Except Failure Config :=
  match (Toml.read? text).bind ofValue? with
  | some config => .ok config
  | none => .error State.documentFault

def load (disk : Disk) (path : Path) : Except Failure Config :=
  match disk.readText path with
  | .error fault =>
      .error ⟨s!"failed to read config file: {path}", [fault.message]⟩
  | .ok text => withContext s!"failed to parse config file: {path}" (parse text)

/-- A configuration that is missing or cannot be read sets nothing. -/
def loadOrDefault (disk : Disk) (path : Path) : Config :=
  match load disk path with
  | .ok config => config
  | .error _ => {}

def makeParent (disk : Disk) (path : Path) : Attempt Failure :=
  match path.parent? with
  | none => ⟨disk, none⟩
  | some parent =>
      (disk.makeDirectories parent).mapFault fun fault =>
        ⟨s!"failed to create config directory: {parent}", [fault.message]⟩

def save (config : Config) (disk : Disk) (path : Path) : Attempt Failure :=
  (makeParent disk path).andThen fun ready =>
    (Attempt.ofExcept ready (ready.writeFile path config.render.toUTF8)).mapFault fun fault =>
      ⟨s!"failed to write config file: {path}", [fault.message]⟩

/-- Takes each key from `upper` where it is set there. -/
def merge (base upper : Config) : Config where
  elm := upper.elm.or base.elm
  elmFormat := upper.elmFormat.or base.elmFormat
  elmTest := upper.elmTest.or base.elmTest
  elmReview := upper.elmReview.or base.elmReview
  formatOnSave := upper.formatOnSave.or base.formatOnSave

def hasOverrides (config : Config) : Bool :=
  config.elm.isSome || config.elmFormat.isSome || config.elmTest.isSome ||
    config.elmReview.isSome

/-- The settings of a workspace that has no state yet. -/
def toSettings (config : Config) : Settings :=
  let text (path : Option Path) : String := (path.map Path.text).getD ""
  { elmCompilerPath := text config.elm
    elmFormatPath := text config.elmFormat
    elmTestPath := text config.elmTest
    elmReviewPath := text config.elmReview
    isFormatOnSaveEnabled := config.formatOnSave.getD false }

/-- The user's configuration overlaid with that of the workspace. -/
def loadLayers (disk : Disk) (user workspace : Path) : Config :=
  merge (loadOrDefault disk user) (loadOrDefault disk workspace)

end Config

end ElmAtlas
