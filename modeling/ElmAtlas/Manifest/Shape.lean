import ElmAtlas.Constraint
import ElmAtlas.Json.Decode

/-!
# The shape of manifests

The records that manifests and lock files hold, as written: nothing is checked
here beyond the types of the fields and the texts of versions and constraints.
-/

namespace ElmAtlas.Manifest

open Json

def version : Decoder Version :=
  Decode.textAs fun text =>
    match Version.parse text with
    | .ok value => .ok value
    | .error fault => .error fault.message

def constraint : Decoder Constraint :=
  Decode.textAs fun text =>
    match Constraint.parse text with
    | .ok value => .ok value
    | .error fault => .error fault.message

/-- Modules are listed plainly or by category; categories keep their order. -/
def exposedModules : Decoder (List String)
  | .array documents => Decode.items Decode.text documents
  | .object entries => do
      let categories ← Decode.members (Decode.list Decode.text) entries
      return categories.flatMap Prod.snd
  | document =>
      .error (document.wrongType
        "a list of module names or a map of category to module names")

/-- A field that is stored under `set` once it is decoded. -/
def fieldOf {draft α : Type} (name : String) (get : draft → Option α)
    (set : draft → α → draft) (decode : Decoder α) (optional : Bool) :
    Decode.Field draft where
  name := name
  isFilled := fun draft => (get draft).isSome
  fill := fun document draft => return set draft (← decode document)
  isOptional := optional

structure PinnedVersions where
  direct : NameMap Version
  indirect : NameMap Version

structure PinnedDraft where
  direct : Option (NameMap Version) := none
  indirect : Option (NameMap Version) := none

def pinnedFields : List (Decode.Field PinnedDraft) := [
  fieldOf "direct" (·.direct) (fun draft value => { draft with direct := some value })
    (Decode.map version) false,
  fieldOf "indirect" (·.indirect) (fun draft value => { draft with indirect := some value })
    (Decode.map version) false]

def pinnedVersions : Decoder PinnedVersions := fun document => do
  let draft ← Decode.draft .buffered "struct RawPinnedDeps" pinnedFields {} document
  return {
    direct := ← Decode.required "direct" draft.direct
    indirect := ← Decode.required "indirect" draft.indirect }

structure ApplicationRecord where
  sourceDirectories : List String
  elmVersion : Version
  dependencies : PinnedVersions
  testDependencies : PinnedVersions

structure ApplicationDraft where
  sourceDirectories : Option (List String) := none
  elmVersion : Option Version := none
  dependencies : Option PinnedVersions := none
  testDependencies : Option PinnedVersions := none

def applicationFields : List (Decode.Field ApplicationDraft) := [
  fieldOf "source-directories" (·.sourceDirectories)
    (fun draft value => { draft with sourceDirectories := some value })
    (Decode.list Decode.text) false,
  fieldOf "elm-version" (·.elmVersion)
    (fun draft value => { draft with elmVersion := some value }) version false,
  fieldOf "dependencies" (·.dependencies)
    (fun draft value => { draft with dependencies := some value }) pinnedVersions false,
  fieldOf "test-dependencies" (·.testDependencies)
    (fun draft value => { draft with testDependencies := some value }) pinnedVersions false]

def applicationRecord : Decoder ApplicationRecord := fun document => do
  let draft ← Decode.draft .buffered "struct RawApplication" applicationFields {} document
  return {
    sourceDirectories := ← Decode.required "source-directories" draft.sourceDirectories
    elmVersion := ← Decode.required "elm-version" draft.elmVersion
    dependencies := ← Decode.required "dependencies" draft.dependencies
    testDependencies := ← Decode.required "test-dependencies" draft.testDependencies }

structure PackageRecord where
  name : String
  summary : String
  license : String
  version : Version
  exposedModules : List String
  elmVersion : Constraint
  dependencies : NameMap Constraint
  testDependencies : NameMap Constraint

structure PackageDraft where
  name : Option String := none
  summary : Option String := none
  license : Option String := none
  version : Option Version := none
  exposedModules : Option (List String) := none
  elmVersion : Option Constraint := none
  dependencies : Option (NameMap Constraint) := none
  testDependencies : Option (NameMap Constraint) := none

def packageFields : List (Decode.Field PackageDraft) := [
  fieldOf "name" (·.name) (fun draft value => { draft with name := some value })
    Decode.text false,
  fieldOf "summary" (·.summary) (fun draft value => { draft with summary := some value })
    Decode.text false,
  fieldOf "license" (·.license) (fun draft value => { draft with license := some value })
    Decode.text false,
  fieldOf "version" (·.version) (fun draft value => { draft with version := some value })
    version false,
  fieldOf "exposed-modules" (·.exposedModules)
    (fun draft value => { draft with exposedModules := some value }) exposedModules false,
  fieldOf "elm-version" (·.elmVersion)
    (fun draft value => { draft with elmVersion := some value }) constraint false,
  fieldOf "dependencies" (·.dependencies)
    (fun draft value => { draft with dependencies := some value })
    (Decode.map constraint) false,
  fieldOf "test-dependencies" (·.testDependencies)
    (fun draft value => { draft with testDependencies := some value })
    (Decode.map constraint) false]

def packageRecord : Decoder PackageRecord := fun document => do
  let draft ← Decode.draft .buffered "struct RawPackage" packageFields {} document
  return {
    name := ← Decode.required "name" draft.name
    summary := ← Decode.required "summary" draft.summary
    license := ← Decode.required "license" draft.license
    version := ← Decode.required "version" draft.version
    exposedModules := ← Decode.required "exposed-modules" draft.exposedModules
    elmVersion := ← Decode.required "elm-version" draft.elmVersion
    dependencies := ← Decode.required "dependencies" draft.dependencies
    testDependencies := ← Decode.required "test-dependencies" draft.testDependencies }

/-- An `elm.json`, told apart by its `type`. -/
inductive CurrentRecord where
  | application (record : ApplicationRecord)
  | package (record : PackageRecord)

def currentRecord : Decoder CurrentRecord := fun document => do
  let (tag, body) ←
    Decode.tagged "internally tagged enum RawManifest" ["application", "package"] document
  if tag == "application" then
    return .application (← applicationRecord body)
  else
    return .package (← packageRecord body)

structure LegacyRecord where
  version : Version
  summary : String
  repository : String
  license : String
  sourceDirectories : List String
  exposedModules : List String
  nativeModules : Bool
  dependencies : NameMap Constraint
  elmVersion : Constraint

structure LegacyDraft where
  version : Option Version := none
  summary : Option String := none
  repository : Option String := none
  license : Option String := none
  sourceDirectories : Option (List String) := none
  exposedModules : Option (List String) := none
  nativeModules : Option Bool := none
  dependencies : Option (NameMap Constraint) := none
  elmVersion : Option Constraint := none

def legacyFields : List (Decode.Field LegacyDraft) := [
  fieldOf "version" (·.version) (fun draft value => { draft with version := some value })
    version false,
  fieldOf "summary" (·.summary) (fun draft value => { draft with summary := some value })
    Decode.text false,
  fieldOf "repository" (·.repository)
    (fun draft value => { draft with repository := some value }) Decode.text false,
  fieldOf "license" (·.license) (fun draft value => { draft with license := some value })
    Decode.text false,
  fieldOf "source-directories" (·.sourceDirectories)
    (fun draft value => { draft with sourceDirectories := some value })
    (Decode.list Decode.text) false,
  fieldOf "exposed-modules" (·.exposedModules)
    (fun draft value => { draft with exposedModules := some value })
    (Decode.list Decode.text) false,
  fieldOf "native-modules" (·.nativeModules)
    (fun draft value => { draft with nativeModules := some value }) Decode.boolean true,
  fieldOf "dependencies" (·.dependencies)
    (fun draft value => { draft with dependencies := some value })
    (Decode.map constraint) false,
  fieldOf "elm-version" (·.elmVersion)
    (fun draft value => { draft with elmVersion := some value }) constraint false]

def legacyRecord : Decoder LegacyRecord := fun document => do
  let draft ← Decode.draft .direct "struct RawLegacyManifest" legacyFields {} document
  return {
    version := ← Decode.required "version" draft.version
    summary := ← Decode.required "summary" draft.summary
    repository := ← Decode.required "repository" draft.repository
    license := ← Decode.required "license" draft.license
    sourceDirectories := ← Decode.required "source-directories" draft.sourceDirectories
    exposedModules := ← Decode.required "exposed-modules" draft.exposedModules
    nativeModules := draft.nativeModules.getD false
    dependencies := ← Decode.required "dependencies" draft.dependencies
    elmVersion := ← Decode.required "elm-version" draft.elmVersion }

/-- The versions that a lock file pins. -/
def lockedVersions : Decoder (NameMap Version) :=
  Decode.map version

end ElmAtlas.Manifest
