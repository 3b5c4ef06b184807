import ElmAtlas.Proofs.Text.Pieces
import ElmAtlas.Proofs.Workspace.Restoration
import ElmAtlas.Toolchain

/-!
# Which setting of a tool counts

A tool may be set in the saved state, in the configuration of the workspace and in that of
the user.  Each tool goes its own way through these layers: what they say of other tools
does not matter.  The saved state comes first, but a text of blanks in it hides the
configurations without naming a path, since it is not the empty text.
-/

namespace ElmAtlas

/-- The text that the settings hold for a tool. -/
def Settings.toolText (settings : Settings) : Tool → String
  | .compiler => settings.elmCompilerPath
  | .formatter => settings.elmFormatPath
  | .testRunner => settings.elmTestPath
  | .reviewer => settings.elmReviewPath

/-- The path that the settings give a tool. -/
def Settings.toolPath? (settings : Settings) (tool : Tool) : Option Path :=
  (Toolchain.ofSettings settings).path? tool

theorem Settings.toolPath?_eq (settings : Settings) (tool : Tool) :
    settings.toolPath? tool = Toolchain.pathOf? (settings.toolText tool) := by
  cases tool <;> rfl

namespace Config

/-- The path that a configuration sets for a tool. -/
def toolPath? (config : Config) : Tool → Option Path
  | .compiler => config.elm
  | .formatter => config.elmFormat
  | .testRunner => config.elmTest
  | .reviewer => config.elmReview

/-- The configurations of the user and of the workspace, each of which may be missing. -/
def ofLayers (user workspace : Option Config) : Config :=
  merge (user.getD {}) (workspace.getD {})

theorem loadLayers_eq_ofLayers (disk : Disk) (user workspace : Path) :
    loadLayers disk user workspace =
      ofLayers (load disk user).toOption (load disk workspace).toOption := by
  have layer (path : Path) : loadOrDefault disk path = (load disk path).toOption.getD {} := by
    rw [loadOrDefault]
    cases load disk path <;> rfl
  rw [loadLayers, layer, layer, ofLayers]

private theorem toolPath?_ofLayers (user workspace : Option Config) (tool : Tool) :
    (ofLayers user workspace).toolPath? tool =
      (workspace.bind (·.toolPath? tool)).or (user.bind (·.toolPath? tool)) := by
  cases user <;> cases workspace <;> cases tool <;> rfl

private theorem formatOnSave_ofLayers (user workspace : Option Config) :
    (ofLayers user workspace).formatOnSave =
      (workspace.bind (·.formatOnSave)).or (user.bind (·.formatOnSave)) := by
  cases user <;> cases workspace <;> rfl

private theorem toolText_toSettings (config : Config) (tool : Tool) :
    config.toSettings.toolText tool = ((config.toolPath? tool).map Path.text).getD "" := by
  cases tool <;> rfl

theorem toolPath?_toSettings (config : Config) (tool : Tool) :
    config.toSettings.toolPath? tool =
      (config.toolPath? tool).bind (Toolchain.pathOf? ·.text) := by
  rw [Settings.toolPath?_eq, toolText_toSettings]
  cases config.toolPath? tool <;> rfl

end Config

/-- A text that is not empty and still names no path. -/
structure IsHollow (text : String) : Prop where
  nonempty : text ≠ ""
  blank : Text.AreBlank text.toList

theorem Toolchain.pathOf?_eq_none {text : String} :
    pathOf? text = none ↔ Text.AreBlank text.toList := by
  rw [← Text.trim_eq_nil, pathOf?]
  split
  · rename_i nothing
    exact iff_of_true rfl nothing
  · rename_i something
    exact iff_of_false (Option.some_ne_none _) something

namespace Workspace

/-- The path of a tool by the text that is saved for it and the path that is configured. -/
def effectivePath? (saved : Option String) (configured : Option Path) : Option Path :=
  match saved with
  | none => configured.bind (Toolchain.pathOf? ·.text)
  | some text =>
      if text = "" then configured.bind (Toolchain.pathOf? ·.text) else Toolchain.pathOf? text

/-- A saved path comes before a configured one, except that a hollow text hides the
configured path. -/
theorem effectivePath?_eq_or_iff (saved : Option String) (configured : Option Path) :
    effectivePath? saved configured =
        (saved.bind Toolchain.pathOf?).or (configured.bind (Toolchain.pathOf? ·.text)) ↔
      ∀ text ∈ saved, IsHollow text → configured.bind (Toolchain.pathOf? ·.text) = none := by
  generalize named : configured.bind (Toolchain.pathOf? ·.text) = path
  cases saved with
  | none => simp [effectivePath?, named]
  | some text =>
      simp only [effectivePath?, named, Option.mem_some_iff, forall_eq', Option.bind_some]
      by_cases empty : text = ""
      · subst empty
        have nothing : Toolchain.pathOf? "" = none := by decide
        rw [if_pos rfl, nothing, Option.none_or]
        exact iff_of_true rfl fun hollow => (hollow.nonempty rfl).elim
      · rw [if_neg empty]
        cases found : Toolchain.pathOf? text with
        | some path =>
            rw [Option.some_or]
            refine iff_of_true rfl fun hollow => ?_
            rw [Toolchain.pathOf?_eq_none.2 hollow.blank] at found
            cases found
        | none =>
            have hollow : IsHollow text := ⟨empty, Toolchain.pathOf?_eq_none.1 found⟩
            rw [Option.none_or]
            exact ⟨fun same _ => same.symm, fun hidden => (hidden hollow).symm⟩

private theorem toolText_fillUnset (saved configured : Settings) (tool : Tool) :
    (fillUnset saved configured).toolText tool =
      if saved.toolText tool = "" then configured.toolText tool else saved.toolText tool := by
  have choose (text fallback : String) :
      (if text.isEmpty then fallback else text) = if text = "" then fallback else text := by
    by_cases empty : text = "" <;> simp [empty]
  cases tool <;> exact choose _ _

/-- A discovery leaves the settings of a fresh workspace. -/
theorem discover_settings (settings : Settings) (disk : Disk) (cache : PackageCache)
    (root : Path) : ((withSettings settings).discover disk cache root).1.settings = settings := by
  simp only [discover]
  exact congrArg Registry.settings (finish_first settings (.discovered (scan disk cache root)))

/-- The settings of an opened workspace come from the saved state if there is one. -/
theorem openAt_settings {disk : Disk} {root : Path} {saved : Option State}
    (loaded : State.loadIfPresent disk (State.file root) = .ok saved) (cache : PackageCache)
    (config : Config) :
    ∃ workspace, openAt disk cache root config = .ok workspace ∧
      workspace.settings =
        (saved.map fun state => fillUnset state.settings config.toSettings).getD
          config.toSettings := by
  rw [openAt, loaded]
  cases saved with
  | none => exact ⟨_, rfl, discover_settings _ _ _ _⟩
  | some state =>
      refine ⟨_, rfl, ?_⟩
      rw [settings, loadState_registry, restore_settings]
      rfl

/-- Each tool has the path that its own layers give it. -/
theorem toolPath?_opened {workspace : Workspace} {saved : Option State} {config : Config}
    (opened : workspace.settings =
      (saved.map fun state => fillUnset state.settings config.toSettings).getD
        config.toSettings)
    (tool : Tool) :
    workspace.settings.toolPath? tool =
      effectivePath? (saved.map (·.settings.toolText tool)) (config.toolPath? tool) := by
  rw [opened]
  cases saved with
  | none => exact config.toolPath?_toSettings tool
  | some state =>
      simp only [Option.map_some, Option.getD_some, effectivePath?]
      rw [Settings.toolPath?_eq, toolText_fillUnset, ← config.toolPath?_toSettings]
      split
      · rw [← Settings.toolPath?_eq]
      · rfl

/-- Let the configurations of the user and of the workspace be there or not, and let the state
of a root be saved or not.  Then the root can be opened.  Files are formatted when saved as the
state says, or else the workspace, or else the user.  The path of each tool is told by what
the layers say of that tool alone; it is the one of the state, or else that of the merged
configurations, unless the state has a hollow text for the tool and the configurations
name a path. -/
theorem tool_layers_in_order_iff (disk : Disk) (cache : PackageCache) (root : Path)
    (user project : Option Config) {saved : Option State}
    (loaded : State.loadIfPresent disk (State.file root) = .ok saved) :
    (∀ userFile projectFile, Config.loadLayers disk userFile projectFile =
      .ofLayers (Config.load disk userFile).toOption (Config.load disk projectFile).toOption) ∧
    ∃ workspace, openAt disk cache root (.ofLayers user project) = .ok workspace ∧
      workspace.settings.isFormatOnSaveEnabled =
        (saved.map (·.settings.isFormatOnSaveEnabled)).getD
          (((project.bind (·.formatOnSave)).or (user.bind (·.formatOnSave))).getD false) ∧
      ∀ tool,
        (Config.ofLayers user project).toolPath? tool =
          (project.bind (·.toolPath? tool)).or (user.bind (·.toolPath? tool)) ∧
        workspace.settings.toolPath? tool =
          effectivePath? (saved.map (·.settings.toolText tool))
            ((Config.ofLayers user project).toolPath? tool) ∧
        (workspace.settings.toolPath? tool =
            (saved.bind (·.settings.toolPath? tool)).or
              ((Config.ofLayers user project).toSettings.toolPath? tool) ↔
          ∀ state ∈ saved, IsHollow (state.settings.toolText tool) →
            (Config.ofLayers user project).toSettings.toolPath? tool = none) := by
  refine ⟨Config.loadLayers_eq_ofLayers disk, ?_⟩
  obtain ⟨workspace, opens, opened⟩ := openAt_settings loaded cache (.ofLayers user project)
  refine ⟨workspace, opens, ?_, fun tool => ⟨Config.toolPath?_ofLayers user project tool, ?_, ?_⟩⟩
  · rw [opened, ← Config.formatOnSave_ofLayers]
    cases saved <;> rfl
  · exact toolPath?_opened opened tool
  · have savedPath : (saved.map (·.settings.toolText tool)).bind Toolchain.pathOf? =
        saved.bind (·.settings.toolPath? tool) := by
      cases saved with
      | none => rfl
      | some state => exact (state.settings.toolPath?_eq tool).symm
    rw [toolPath?_opened opened tool, Config.toolPath?_toSettings, ← savedPath,
      effectivePath?_eq_or_iff]
    simp

/-- Settings with blanks around one path and blanks instead of another. -/
def blankSettings : Settings where
  elmFormatPath := " "
  elmTestPath := " /s/test\t"

/-- A disk that holds a saved state and nothing else. -/
def savedDisk : Disk :=
  let text := "[settings]\nelmFormatPath = ' '\nelmTestPath = ' /s/test\t'\n"
  let files := .directory [("state.toml", .file text.toUTF8 false)]
  ⟨.directory [(workspaceDirectory, files)], ⟨"/"⟩⟩

theorem loadIfPresent_savedDisk :
    State.loadIfPresent savedDisk (State.file ⟨"/"⟩) = .ok (some ⟨[], blankSettings⟩) := by
  decide +kernel

def userConfig : Config where
  elm := some ⟨"/u/elm"⟩
  elmTest := some ⟨"/u/test"⟩
  elmReview := some ⟨"/u/review"⟩
  formatOnSave := some true

theorem tool_layers_in_order_iff_mixed :
    State.loadIfPresent savedDisk (State.file ⟨"/"⟩) = .ok (some ⟨[], blankSettings⟩) ∧
      ∃ workspace, openAt savedDisk .empty ⟨"/"⟩
          (.ofLayers (some userConfig) (some { elm := some ⟨"/p/elm"⟩ })) = .ok workspace ∧
        workspace.settings.isFormatOnSaveEnabled = false ∧
        workspace.settings.toolPath? .compiler = some ⟨"/p/elm"⟩ ∧
        workspace.settings.toolPath? .formatter = none ∧
        workspace.settings.toolPath? .testRunner = some ⟨"/s/test"⟩ ∧
        workspace.settings.toolPath? .reviewer = some ⟨"/u/review"⟩ := by
  obtain ⟨_, workspace, opens, onSave, tools⟩ := tool_layers_in_order_iff savedDisk .empty ⟨"/"⟩
    (some userConfig) (some { elm := some ⟨"/p/elm"⟩ }) loadIfPresent_savedDisk
  refine ⟨loadIfPresent_savedDisk, workspace, opens, onSave, ?_, ?_, ?_, ?_⟩
  · exact (tools .compiler).2.1
  · exact (tools .formatter).2.1
  · exact (tools .testRunner).2.1
  · exact (tools .reviewer).2.1

/-- The blanks that are saved for the formatter hide the path that is configured for it. -/
theorem blanks_hide_configured_path :
    State.loadIfPresent savedDisk (State.file ⟨"/"⟩) = .ok (some ⟨[], blankSettings⟩) ∧
      ∃ workspace, openAt savedDisk .empty ⟨"/"⟩
          (.ofLayers none (some { elmFormat := some ⟨"/p/format"⟩ })) = .ok workspace ∧
        workspace.settings.toolPath? .formatter = none ∧
        (blankSettings.toolPath? .formatter).or
          ((Config.ofLayers none (some { elmFormat := some ⟨"/p/format"⟩ })).toSettings.toolPath?
            .formatter) = some ⟨"/p/format"⟩ := by
  obtain ⟨workspace, opens, opened⟩ := openAt_settings loadIfPresent_savedDisk .empty
    (.ofLayers none (some { elmFormat := some ⟨"/p/format"⟩ }))
  refine ⟨loadIfPresent_savedDisk, workspace, opens, ?_, by decide +kernel⟩
  rw [toolPath?_opened opened]
  decide +kernel

end Workspace

end ElmAtlas
