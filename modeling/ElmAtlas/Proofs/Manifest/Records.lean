import ElmAtlas.Manifest.Shape
import ElmAtlas.Proofs.Json.Record

/-!
# What the records of a manifest hold

Each record is read from the members of an object exactly if every field finds a
member of its name that its decoder accepts.
-/

namespace ElmAtlas.Manifest

open Json
open Json.Decode (Slot Holds AreProper)

section Fields

variable {draft α β : Type} {name : String} {get : draft → Option α} {set : draft → α → draft}
  {decode : Decoder α} {optional : Bool}

@[simp] theorem name_fieldOf : (fieldOf name get set decode optional).name = name := rfl

@[simp] theorem isFilled_fieldOf (draft : draft) :
    (fieldOf name get set decode optional).isFilled draft = (get draft).isSome := rfl

theorem fieldOf_fill_eq_ok {document : Document} {before after : draft} :
    (fieldOf name get set decode optional).fill document before = .ok after ↔
      ∃ value, decode document = .ok value ∧ set before value = after := by
  simp only [fieldOf, bind_eq_ok]
  exact exists_congr fun value => and_congr_right fun _ =>
    ⟨Except.ok.inj, congrArg Except.ok⟩

/-- A field leaves alone what its update does not touch. -/
theorem spares_fieldOf {view : draft → β}
    (kept : ∀ draft value, view (set draft value) = view draft) :
    (fieldOf name get set decode optional).Spares view := by
  intro document before after fill
  obtain ⟨value, _, rfl⟩ := fieldOf_fill_eq_ok.1 fill
  exact kept before value

theorem takes_of_single {members : List (Option String × Document)}
    (single : (members.map Prod.fst).count (some name) ≤ 1) {value : α}
    (held : Holds members name decode value) :
    (fieldOf name get set decode optional).Takes members := by
  intro document member before
  obtain ⟨own, ownMember, decoded⟩ := held
  obtain rfl := Decode.unique_of_single single ownMember member
  exact ⟨set before value, fieldOf_fill_eq_ok.2 ⟨value, decoded, rfl⟩⟩

theorem takes_fieldOf {members : List (Option String × Document)} (proper : AreProper members)
    {value : α} (held : Holds members name decode value) :
    (fieldOf name get set decode optional).Takes members :=
  takes_of_single (proper.single name) held

theorem served_of_holds {members : List (Option String × Document)}
    (single : (members.map Prod.fst).count (some name) ≤ 1) {value : α}
    (held : Holds members name decode value) :
    (fieldOf name get set decode optional).IsServedBy members := by
  refine ⟨takes_of_single single held, .inr ?_⟩
  obtain ⟨document, member, _⟩ := held
  exact List.mem_map_of_mem member

theorem served_of_absent {members : List (Option String × Document)}
    (absent : some name ∉ members.map Prod.fst) :
    (fieldOf name get set decode true).IsServedBy members :=
  ⟨fun _ member => (absent (List.mem_map_of_mem member)).elim, .inl rfl⟩

end Fields

section Records

variable {members : List (Option String × Document)}

private theorem pinnedSlots :
    Slot pinnedFields "direct" (·.direct) (Decode.map version) ∧
    Slot pinnedFields "indirect" (·.indirect) (Decode.map version) := by
  refine ⟨?_, ?_⟩ <;> constructor <;> simp [pinnedFields, fieldOf_fill_eq_ok, spares_fieldOf]

theorem pinnedVersions_eq_ok (proper : AreProper members) {pinned : PinnedVersions} :
    pinnedVersions (.object members) = .ok pinned ↔
      Holds members "direct" (Decode.map version) pinned.direct ∧
      Holds members "indirect" (Decode.map version) pinned.indirect := by
  obtain ⟨direct, indirect⟩ := pinnedSlots
  constructor
  · intro decoded
    obtain ⟨filled, fill, decoded⟩ := bind_eq_ok.1 decoded
    obtain ⟨_, directRead, decoded⟩ := bind_eq_ok.1 decoded
    obtain ⟨_, indirectRead, decoded⟩ := bind_eq_ok.1 decoded
    obtain rfl := Except.ok.inj decoded
    exact ⟨(direct.required_eq_ok fill rfl).1 directRead,
      (indirect.required_eq_ok fill rfl).1 indirectRead⟩
  · rintro ⟨directHeld, indirectHeld⟩
    have slots : Decode.HaveSlots pinnedFields := by
      simp only [Decode.HaveSlots, pinnedFields, List.forall_mem_cons]
      exact ⟨⟨_, _, _, direct⟩, ⟨_, _, _, indirect⟩, by simp⟩
    have takes : ∀ field ∈ pinnedFields, field.Takes members := by
      simp only [pinnedFields, List.forall_mem_cons]
      exact ⟨takes_fieldOf proper directHeld, takes_fieldOf proper indirectHeld, by simp⟩
    have blank : ∀ field ∈ pinnedFields, some field.name ∈ members.map Prod.fst →
        field.isFilled {} = false := by
      simp [pinnedFields]
    obtain ⟨filled, fill⟩ := Decode.exists_fillMembers slots (proper.properFor _) takes blank
    exact bind_eq_ok.2 ⟨filled, fill, bind_eq_ok.2
      ⟨_, (direct.required_eq_ok fill rfl).2 directHeld, bind_eq_ok.2
        ⟨_, (indirect.required_eq_ok fill rfl).2 indirectHeld, rfl⟩⟩⟩

private theorem applicationSlots :
    Slot applicationFields "source-directories" (·.sourceDirectories)
      (Decode.list Decode.text) ∧
    Slot applicationFields "elm-version" (·.elmVersion) version ∧
    Slot applicationFields "dependencies" (·.dependencies) pinnedVersions ∧
    Slot applicationFields "test-dependencies" (·.testDependencies) pinnedVersions := by
  refine ⟨?_, ?_, ?_, ?_⟩ <;> constructor <;>
    simp [applicationFields, fieldOf_fill_eq_ok, spares_fieldOf]

/-- What an application is read from. -/
structure HoldsApplication (members : List (Option String × Document))
    (record : ApplicationRecord) : Prop where
  sourceDirectories :
    Holds members "source-directories" (Decode.list Decode.text) record.sourceDirectories
  elmVersion : Holds members "elm-version" version record.elmVersion
  dependencies : Holds members "dependencies" pinnedVersions record.dependencies
  testDependencies : Holds members "test-dependencies" pinnedVersions record.testDependencies

theorem applicationRecord_eq_ok (proper : AreProper members) {record : ApplicationRecord} :
    applicationRecord (.object members) = .ok record ↔ HoldsApplication members record := by
  obtain ⟨directories, elmVersion, dependencies, testDependencies⟩ := applicationSlots
  constructor
  · intro decoded
    obtain ⟨filled, fill, decoded⟩ := bind_eq_ok.1 decoded
    obtain ⟨_, directoriesRead, decoded⟩ := bind_eq_ok.1 decoded
    obtain ⟨_, elmVersionRead, decoded⟩ := bind_eq_ok.1 decoded
    obtain ⟨_, dependenciesRead, decoded⟩ := bind_eq_ok.1 decoded
    obtain ⟨_, testDependenciesRead, decoded⟩ := bind_eq_ok.1 decoded
    obtain rfl := Except.ok.inj decoded
    exact ⟨(directories.required_eq_ok fill rfl).1 directoriesRead,
      (elmVersion.required_eq_ok fill rfl).1 elmVersionRead,
      (dependencies.required_eq_ok fill rfl).1 dependenciesRead,
      (testDependencies.required_eq_ok fill rfl).1 testDependenciesRead⟩
  · intro holds
    have slots : Decode.HaveSlots applicationFields := by
      simp only [Decode.HaveSlots, applicationFields, List.forall_mem_cons]
      exact ⟨⟨_, _, _, directories⟩, ⟨_, _, _, elmVersion⟩, ⟨_, _, _, dependencies⟩,
        ⟨_, _, _, testDependencies⟩, by simp⟩
    have takes : ∀ field ∈ applicationFields, field.Takes members := by
      simp only [applicationFields, List.forall_mem_cons]
      exact ⟨takes_fieldOf proper holds.sourceDirectories,
        takes_fieldOf proper holds.elmVersion, takes_fieldOf proper holds.dependencies,
        takes_fieldOf proper holds.testDependencies, by simp⟩
    have blank : ∀ field ∈ applicationFields, some field.name ∈ members.map Prod.fst →
        field.isFilled {} = false := by
      simp [applicationFields]
    obtain ⟨filled, fill⟩ := Decode.exists_fillMembers slots (proper.properFor _) takes blank
    refine bind_eq_ok.2 ⟨filled, fill, ?_⟩
    refine bind_eq_ok.2 ⟨_, (directories.required_eq_ok fill rfl).2 holds.sourceDirectories, ?_⟩
    refine bind_eq_ok.2 ⟨_, (elmVersion.required_eq_ok fill rfl).2 holds.elmVersion, ?_⟩
    refine bind_eq_ok.2 ⟨_, (dependencies.required_eq_ok fill rfl).2 holds.dependencies, ?_⟩
    exact bind_eq_ok.2
      ⟨_, (testDependencies.required_eq_ok fill rfl).2 holds.testDependencies, rfl⟩

private theorem packageSlots :
    Slot packageFields "name" (·.name) Decode.text ∧
    Slot packageFields "summary" (·.summary) Decode.text ∧
    Slot packageFields "license" (·.license) Decode.text ∧
    Slot packageFields "version" (·.version) version ∧
    Slot packageFields "exposed-modules" (·.exposedModules) exposedModules ∧
    Slot packageFields "elm-version" (·.elmVersion) constraint ∧
    Slot packageFields "dependencies" (·.dependencies) (Decode.map constraint) ∧
    Slot packageFields "test-dependencies" (·.testDependencies) (Decode.map constraint) := by
  refine ⟨?_, ?_, ?_, ?_, ?_, ?_, ?_, ?_⟩ <;> constructor <;>
    simp [packageFields, fieldOf_fill_eq_ok, spares_fieldOf]

/-- What a package is read from. -/
structure HoldsPackage (members : List (Option String × Document)) (record : PackageRecord) :
    Prop where
  name : Holds members "name" Decode.text record.name
  summary : Holds members "summary" Decode.text record.summary
  license : Holds members "license" Decode.text record.license
  version : Holds members "version" Manifest.version record.version
  exposedModules : Holds members "exposed-modules" Manifest.exposedModules record.exposedModules
  elmVersion : Holds members "elm-version" constraint record.elmVersion
  dependencies : Holds members "dependencies" (Decode.map constraint) record.dependencies
  testDependencies :
    Holds members "test-dependencies" (Decode.map constraint) record.testDependencies

theorem packageRecord_eq_ok (proper : AreProper members) {record : PackageRecord} :
    packageRecord (.object members) = .ok record ↔ HoldsPackage members record := by
  obtain ⟨name, summary, license, version, modules, elmVersion, dependencies,
    testDependencies⟩ := packageSlots
  constructor
  · intro decoded
    obtain ⟨filled, fill, decoded⟩ := bind_eq_ok.1 decoded
    obtain ⟨_, nameRead, decoded⟩ := bind_eq_ok.1 decoded
    obtain ⟨_, summaryRead, decoded⟩ := bind_eq_ok.1 decoded
    obtain ⟨_, licenseRead, decoded⟩ := bind_eq_ok.1 decoded
    obtain ⟨_, versionRead, decoded⟩ := bind_eq_ok.1 decoded
    obtain ⟨_, modulesRead, decoded⟩ := bind_eq_ok.1 decoded
    obtain ⟨_, elmVersionRead, decoded⟩ := bind_eq_ok.1 decoded
    obtain ⟨_, dependenciesRead, decoded⟩ := bind_eq_ok.1 decoded
    obtain ⟨_, testDependenciesRead, decoded⟩ := bind_eq_ok.1 decoded
    obtain rfl := Except.ok.inj decoded
    exact {
      name := (name.required_eq_ok fill rfl).1 nameRead
      summary := (summary.required_eq_ok fill rfl).1 summaryRead
      license := (license.required_eq_ok fill rfl).1 licenseRead
      version := (version.required_eq_ok fill rfl).1 versionRead
      exposedModules := (modules.required_eq_ok fill rfl).1 modulesRead
      elmVersion := (elmVersion.required_eq_ok fill rfl).1 elmVersionRead
      dependencies := (dependencies.required_eq_ok fill rfl).1 dependenciesRead
      testDependencies := (testDependencies.required_eq_ok fill rfl).1 testDependenciesRead }
  · intro holds
    have slots : Decode.HaveSlots packageFields := by
      simp only [Decode.HaveSlots, packageFields, List.forall_mem_cons]
      exact ⟨⟨_, _, _, name⟩, ⟨_, _, _, summary⟩, ⟨_, _, _, license⟩, ⟨_, _, _, version⟩,
        ⟨_, _, _, modules⟩, ⟨_, _, _, elmVersion⟩, ⟨_, _, _, dependencies⟩,
        ⟨_, _, _, testDependencies⟩, by simp⟩
    have takes : ∀ field ∈ packageFields, field.Takes members := by
      simp only [packageFields, List.forall_mem_cons]
      exact ⟨takes_fieldOf proper holds.name, takes_fieldOf proper holds.summary,
        takes_fieldOf proper holds.license, takes_fieldOf proper holds.version,
        takes_fieldOf proper holds.exposedModules, takes_fieldOf proper holds.elmVersion,
        takes_fieldOf proper holds.dependencies, takes_fieldOf proper holds.testDependencies,
        by simp⟩
    have blank : ∀ field ∈ packageFields, some field.name ∈ members.map Prod.fst →
        field.isFilled {} = false := by
      simp [packageFields]
    obtain ⟨filled, fill⟩ := Decode.exists_fillMembers slots (proper.properFor _) takes blank
    refine bind_eq_ok.2 ⟨filled, fill, ?_⟩
    refine bind_eq_ok.2 ⟨_, (name.required_eq_ok fill rfl).2 holds.name, ?_⟩
    refine bind_eq_ok.2 ⟨_, (summary.required_eq_ok fill rfl).2 holds.summary, ?_⟩
    refine bind_eq_ok.2 ⟨_, (license.required_eq_ok fill rfl).2 holds.license, ?_⟩
    refine bind_eq_ok.2 ⟨_, (version.required_eq_ok fill rfl).2 holds.version, ?_⟩
    refine bind_eq_ok.2 ⟨_, (modules.required_eq_ok fill rfl).2 holds.exposedModules, ?_⟩
    refine bind_eq_ok.2 ⟨_, (elmVersion.required_eq_ok fill rfl).2 holds.elmVersion, ?_⟩
    refine bind_eq_ok.2 ⟨_, (dependencies.required_eq_ok fill rfl).2 holds.dependencies, ?_⟩
    exact bind_eq_ok.2
      ⟨_, (testDependencies.required_eq_ok fill rfl).2 holds.testDependencies, rfl⟩

/-- All members but the tag stand in the other object too. -/
def Carries (members others : List (Option String × Document)) : Prop :=
  ∀ name document, name ≠ "type" → (some name, document) ∈ members →
    (some name, document) ∈ others

section Carries

variable {others : List (Option String × Document)} (carries : Carries members others)

include carries

theorem Carries.holds {α : Type} {name : String} {decode : Decoder α} {value : α}
    (held : Holds members name decode value) (different : name ≠ "type") :
    Holds others name decode value := by
  obtain ⟨document, member, decoded⟩ := held
  exact ⟨document, carries name document different member, decoded⟩

theorem Carries.application {record : ApplicationRecord}
    (holds : HoldsApplication members record) : HoldsApplication others record where
  sourceDirectories := carries.holds holds.sourceDirectories (by decide)
  elmVersion := carries.holds holds.elmVersion (by decide)
  dependencies := carries.holds holds.dependencies (by decide)
  testDependencies := carries.holds holds.testDependencies (by decide)

theorem Carries.package {record : PackageRecord}
    (holds : HoldsPackage members record) : HoldsPackage others record where
  name := carries.holds holds.name (by decide)
  summary := carries.holds holds.summary (by decide)
  license := carries.holds holds.license (by decide)
  version := carries.holds holds.version (by decide)
  exposedModules := carries.holds holds.exposedModules (by decide)
  elmVersion := carries.holds holds.elmVersion (by decide)
  dependencies := carries.holds holds.dependencies (by decide)
  testDependencies := carries.holds holds.testDependencies (by decide)

end Carries

private theorem carries_untagged (members : List (Option String × Document)) :
    Carries members (Decode.untagged members) ∧ Carries (Decode.untagged members) members :=
  ⟨fun _ _ different => (Decode.mem_untagged different).2,
    fun _ _ different => (Decode.mem_untagged different).1⟩

section Tagged

variable (readable : (Document.object members).isReadable nestingLimit = true)
  (distinct : (members.map Prod.fst).Nodup)

include readable distinct

theorem currentRecord_eq_ok {record : CurrentRecord} :
    currentRecord (.object members) = .ok record ↔
      (∃ application, record = .application application ∧
        (some "type", .text (some "application")) ∈ members ∧
        HoldsApplication members application) ∨
      ∃ package, record = .package package ∧
        (some "type", .text (some "package")) ∈ members ∧ HoldsPackage members package := by
  have proper := (Decode.areProper_of_isReadable readable distinct).untagged
  have single := List.nodup_iff_count_le_one.1 distinct (some "type")
  obtain ⟨there, back⟩ := carries_untagged members
  rw [currentRecord, bind_eq_ok]
  constructor
  · rintro ⟨⟨tag, body⟩, split, decoded⟩
    obtain ⟨member, listed, rfl⟩ := (Decode.tagged_eq_ok readable single).1 split
    rcases List.mem_pair.1 listed with rfl | rfl
    · obtain ⟨application, read, built⟩ := bind_eq_ok.1 decoded
      obtain rfl := Except.ok.inj built
      have holds := back.application ((applicationRecord_eq_ok proper).1 read)
      exact .inl ⟨application, rfl, member, holds⟩
    · obtain ⟨package, read, built⟩ := bind_eq_ok.1 decoded
      obtain rfl := Except.ok.inj built
      have holds := back.package ((packageRecord_eq_ok proper).1 read)
      exact .inr ⟨package, rfl, member, holds⟩
  · rintro (⟨application, rfl, member, holds⟩ | ⟨package, rfl, member, holds⟩)
    · refine ⟨_, (Decode.tagged_eq_ok readable single).2 ⟨member, by simp, rfl⟩, ?_⟩
      have read := (applicationRecord_eq_ok proper).2 (there.application holds)
      exact bind_eq_ok.2 ⟨application, read, rfl⟩
    · refine ⟨_, (Decode.tagged_eq_ok readable single).2 ⟨member, by simp, rfl⟩, ?_⟩
      have read := (packageRecord_eq_ok proper).2 (there.package holds)
      exact bind_eq_ok.2 ⟨package, read, rfl⟩

end Tagged

end Records

end ElmAtlas.Manifest
