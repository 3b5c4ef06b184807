import ElmAtlas.Manifest.Load
import ElmAtlas.Proofs.Outcome

/-!
# Which manifest a project comes from

Reading a manifest may fail at many steps.  If it succeeds, the project carries
the path at which the manifest was read and the schema that the file name stands
for, whatever the manifest and its companion files say.
-/

namespace ElmAtlas

namespace Manifest

variable {disk : Disk} {cache : PackageCache} {path : Path} {project : Project}

theorem objectTo_eq_ok {α : Type} {outcome : Except Objection α} {value : α} :
    objectTo path outcome = .ok value ↔ outcome = .ok value := by
  cases outcome <;> simp [objectTo]

/-- The path and the schema that a project must carry. -/
structure Identifies (path : Path) (schema : Schema) (project : Project) : Prop where
  manifestPath : project.manifestPath = path
  schema : project.schema = schema

theorem applicationOf_identifies {tests : Option Path} {record : ApplicationRecord}
    (success : applicationOf path tests record = .ok project) :
    Identifies path .current project := by
  unfold applicationOf at success
  obtain ⟨_, _, success⟩ := bind_eq_ok.1 success
  obtain ⟨_, _, success⟩ := bind_eq_ok.1 success
  obtain ⟨_, _, success⟩ := bind_eq_ok.1 success
  obtain rfl := Except.ok.inj success
  exact ⟨rfl, rfl⟩

theorem packageOf_identifies {tests : Option Path} {record : PackageRecord}
    (success : packageOf disk cache path tests record = .ok project) :
    Identifies path .current project := by
  unfold packageOf at success
  obtain ⟨_, _, success⟩ := bind_eq_ok.1 success
  obtain ⟨_, _, success⟩ := bind_eq_ok.1 success
  obtain rfl := Except.ok.inj success
  exact ⟨rfl, rfl⟩

theorem legacyOf_identifies {directories : List Path} {locked : Option (NameMap Version)}
    {record : LegacyRecord}
    (success : legacyOf disk cache path directories locked record = .ok project) :
    Identifies path .legacy project := by
  unfold legacyOf at success
  split at success
  · split at success
    · cases success
    · obtain ⟨_, _, success⟩ := bind_eq_ok.1 success
      obtain rfl := Except.ok.inj success
      exact ⟨rfl, rfl⟩
  · split at success
    · cases success
    · obtain ⟨_, _, success⟩ := bind_eq_ok.1 success
      obtain rfl := Except.ok.inj success
      exact ⟨rfl, rfl⟩

theorem parseAs_identifies {schema : Schema} {content : ByteArray}
    (success : parseAs schema disk cache content path = .ok project) :
    Identifies path schema project := by
  cases schema with
  | current =>
      rw [parseAs, parseCurrent] at success
      obtain ⟨record, _, success⟩ := bind_eq_ok.1 success
      obtain ⟨tests, _, success⟩ := bind_eq_ok.1 success
      cases record with
      | application record => exact applicationOf_identifies (objectTo_eq_ok.1 success)
      | package record => exact packageOf_identifies (objectTo_eq_ok.1 success)
  | legacy =>
      rw [parseAs, parseLegacy] at success
      obtain ⟨record, _, success⟩ := bind_eq_ok.1 success
      obtain ⟨directories, _, success⟩ := bind_eq_ok.1 success
      obtain ⟨locked, _, success⟩ := bind_eq_ok.1 success
      exact legacyOf_identifies (objectTo_eq_ok.1 success)

theorem load_identifies (success : load disk cache path = .ok project) :
    Schema.ofPath? path = some project.schema ∧ project.manifestPath = path := by
  unfold load at success
  split at success
  · unfold parse at success
    split at success
    · cases success
    · rename_i schema named
      have identifies := parseAs_identifies success
      exact ⟨identifies.schema ▸ named, identifies.manifestPath⟩
  · cases success

end Manifest

namespace Schema

/-- The format of a file name is the one with that file name. -/
theorem fileName?_of_ofPath? {path : Path} {schema : Schema}
    (named : ofPath? path = some schema) : path.fileName? = some schema.fileName := by
  unfold ofPath? at named
  split at named
  · rename_i name found
    rw [found]
    split at named
    · rename_i current
      obtain rfl := Option.some.inj named
      exact congrArg some (beq_iff_eq.1 current)
    · split at named
      · rename_i legacy
        obtain rfl := Option.some.inj named
        exact congrArg some (beq_iff_eq.1 legacy)
      · cases named
  · cases named

end Schema

end ElmAtlas
