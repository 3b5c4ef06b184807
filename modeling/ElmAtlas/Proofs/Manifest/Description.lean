import ElmAtlas.Proofs.Json.Grammar
import ElmAtlas.Proofs.Manifest.Companions
import ElmAtlas.Proofs.Manifest.Dependencies
import ElmAtlas.Proofs.Manifest.Records
import ElmAtlas.Proofs.Manifest.WellFormed

/-!
# Which documents describe a project

A document is a manifest by what its members say, in whatever order they stand and
whatever else stands between them.  The description is stated for the document; the
parser accepts a document exactly if it is described and if its sidecar, where there
is one, can be read.
-/

namespace ElmAtlas.Manifest

open Json
open Json.Decode (Holds AreProper)

def IsText (document : Document) : Prop :=
  ∃ value, document = .text (some value)

def IsTexts (document : Document) : Prop :=
  ∃ items, document = .array items ∧ ∀ item ∈ items, IsText item

def IsVersion (document : Document) : Prop :=
  ∃ text version, document = .text (some text) ∧ Version.parse text = .ok version

def IsConstraint (document : Document) : Prop :=
  ∃ text constraint, document = .text (some text) ∧ Constraint.parse text = .ok constraint

/-- Modules stand in one list or in a list for each category. -/
def IsModules (document : Document) : Prop :=
  IsTexts document ∨
    ∃ entries, document = .object entries ∧
      ∀ entry ∈ entries, ∃ category, entry.1 = some category ∧ IsTexts entry.2

def ArePinned (entries : List (Option String × Document)) : Prop :=
  ∀ entry ∈ entries, ∃ name, entry.1 = some name ∧ PackageName.isValid name = true ∧
    IsVersion entry.2

/-- The dependencies of an application; none is direct and indirect at once. -/
def IsPinnedGroup (document : Document) : Prop :=
  ∃ members direct indirect, document = .object members ∧
    (some "direct", .object direct) ∈ members ∧ ArePinned direct ∧
    (some "indirect", .object indirect) ∈ members ∧ ArePinned indirect ∧
    ∀ name : String, some name ∈ direct.map Prod.fst → some name ∉ indirect.map Prod.fst

/-- A version of the package is installed that the constraint admits, or the constraint
has a lowest version. -/
def IsResolvable (disk : Disk) (cache : PackageCache) (name : String)
    (constraint : Constraint) : Prop :=
  (∃ version ∈ cache.installed disk name, constraint.satisfies version = true) ∨
    ∃ version, constraint.leastVersion? = some version

/-- The dependencies of a package. -/
def IsResolvableGroup (disk : Disk) (cache : PackageCache) (document : Document) : Prop :=
  ∃ entries, document = .object entries ∧
    ∀ entry ∈ entries, ∃ name text constraint, entry = (some name, .text (some text)) ∧
      PackageName.isValid name = true ∧ Constraint.parse text = .ok constraint ∧
      IsResolvable disk cache name constraint

/-- An object has a member of this name that is as stated. -/
def Has (members : List (Option String × Document)) (name : String)
    (described : Document → Prop) : Prop :=
  ∃ document, (some name, document) ∈ members ∧ described document

structure DescribesApplication (members : List (Option String × Document)) : Prop where
  type : Has members "type" (· = .text (some "application"))
  sourceDirectories : Has members "source-directories" fun document =>
    IsTexts document ∧ document ≠ .array []
  elmVersion : Has members "elm-version" IsVersion
  dependencies : Has members "dependencies" IsPinnedGroup
  testDependencies : Has members "test-dependencies" IsPinnedGroup

structure DescribesPackage (disk : Disk) (cache : PackageCache)
    (members : List (Option String × Document)) : Prop where
  type : Has members "type" (· = .text (some "package"))
  name : Has members "name" IsText
  summary : Has members "summary" IsText
  license : Has members "license" IsText
  version : Has members "version" IsVersion
  exposedModules : Has members "exposed-modules" IsModules
  elmVersion : Has members "elm-version" IsConstraint
  dependencies : Has members "dependencies" (IsResolvableGroup disk cache)
  testDependencies : Has members "test-dependencies" (IsResolvableGroup disk cache)

theorem version_eq_ok {document : Document} {value : Version} :
    version document = .ok value ↔
      ∃ text, document = .text (some text) ∧ Version.parse text = .ok value := by
  rw [version, Decode.textAs_eq_ok]
  refine exists_congr fun text => and_congr_right fun _ => ?_
  cases Version.parse text <;> simp

theorem constraint_eq_ok {document : Document} {value : Constraint} :
    constraint document = .ok value ↔
      ∃ text, document = .text (some text) ∧ Constraint.parse text = .ok value := by
  rw [constraint, Decode.textAs_eq_ok]
  refine exists_congr fun text => and_congr_right fun _ => ?_
  cases Constraint.parse text <;> simp

theorem exists_version_iff {document : Document} :
    (∃ value, version document = .ok value) ↔ IsVersion document := by
  simp only [version_eq_ok]
  exact exists_comm

theorem exists_constraint_iff {document : Document} :
    (∃ value, constraint document = .ok value) ↔ IsConstraint document := by
  simp only [constraint_eq_ok]
  exact exists_comm

theorem exists_texts_iff {document : Document} :
    (∃ values, Decode.list Decode.text document = .ok values) ↔ IsTexts document := by
  simp only [Decode.list_eq_ok, IsTexts, IsText]
  rw [exists_comm]
  refine exists_congr fun items => ?_
  rw [exists_and_left, Decode.exists_items_iff]
  simp only [Decode.exists_text_iff]

theorem exists_sourceDirectories_iff {document : Document} :
    (∃ values, Decode.list Decode.text document = .ok values ∧ values ≠ []) ↔
      IsTexts document ∧ document ≠ .array [] := by
  constructor
  · rintro ⟨values, decoded, nonempty⟩
    refine ⟨exists_texts_iff.1 ⟨values, decoded⟩, ?_⟩
    rintro rfl
    exact nonempty (Except.ok.inj decoded).symm
  · rintro ⟨texts, nonempty⟩
    obtain ⟨values, decoded⟩ := exists_texts_iff.2 texts
    refine ⟨values, decoded, ?_⟩
    rintro rfl
    obtain ⟨items, rfl, all⟩ := Decode.list_eq_ok.1 decoded
    have none : items = [] := List.length_eq_zero_iff.1 (Decode.length_of_items all).symm
    exact nonempty (congrArg Document.array none)

theorem exists_exposedModules_iff {document : Document} :
    (∃ modules, exposedModules document = .ok modules) ↔ IsModules document := by
  cases document with
  | array items =>
      have same : exposedModules (.array items) = Decode.list Decode.text (.array items) := by
        rw [exposedModules, Decode.list]
      rw [same, exists_texts_iff]
      simp [IsModules]
  | object entries =>
      have flat : ¬IsTexts (.object entries) := by
        rintro ⟨_, same, _⟩
        cases same
      have read : (∃ modules, exposedModules (.object entries) = .ok modules) ↔
          ∃ categories, Decode.members (Decode.list Decode.text) entries = .ok categories ∧
            ∀ category ∈ categories, True := by
        simp only [exposedModules, bind_eq_ok]
        constructor
        · rintro ⟨_, categories, decoded, _⟩
          exact ⟨categories, decoded, fun _ _ => trivial⟩
        · rintro ⟨categories, decoded, _⟩
          exact ⟨_, categories, decoded, rfl⟩
      rw [read, Decode.exists_members_iff]
      simp [IsModules, flat, exists_texts_iff]
  | _ => simp [IsModules, IsTexts, exposedModules]

section Maps

variable {α : Type} {decode : Decoder α} {entries : List (Option String × Document)}

theorem exists_map_iff (distinct : (entries.map Prod.fst).Nodup) {holds : String × α → Prop} :
    (∃ named, Decode.map decode (.object entries) = .ok named ∧
        ∀ entry ∈ named.entries, holds entry) ↔
      ∀ entry ∈ entries, ∃ name value, entry.1 = some name ∧ decode entry.2 = .ok value ∧
        holds (name, value) := by
  have held {values : List (String × α)} (decoded : Decode.members decode entries = .ok values) :
      (∀ entry ∈ (NameMap.ofList values).entries, holds entry) ↔
        ∀ value ∈ values, holds value := by
    rw [Decode.keys_of_members decoded] at distinct
    exact forall_congr' fun entry =>
      imp_congr_left (NameMap.mem_entries_ofList distinct.of_map)
  rw [← Decode.exists_members_iff]
  constructor
  · rintro ⟨named, decoded, all⟩
    obtain ⟨_, values, same, read, rfl⟩ := Decode.map_eq_ok.1 decoded
    obtain rfl := Document.object.inj same
    exact ⟨values, read, (held read).1 all⟩
  · rintro ⟨values, read, all⟩
    exact ⟨_, Decode.map_eq_ok.2 ⟨entries, values, rfl, read, rfl⟩, (held read).2 all⟩

private theorem mem_names_of_map (distinct : (entries.map Prod.fst).Nodup) {named : NameMap α}
    (decoded : Decode.map decode (.object entries) = .ok named) (name : String) :
    name ∈ named.names ↔ some name ∈ entries.map Prod.fst := by
  obtain ⟨_, values, same, read, rfl⟩ := Decode.map_eq_ok.1 decoded
  obtain rfl := Document.object.inj same
  rw [Decode.keys_of_members read] at distinct ⊢
  rw [NameMap.mem_names_ofList distinct.of_map,
    List.mem_map_of_injective fun _ _ => Option.some.inj]

end Maps

/-- The parts of an object are as readable and distinct as the object. -/
theorem of_mem_object {depth : Nat} {members : List (Option String × Document)}
    (readable : (Document.object members).isReadable depth = true)
    (distinct : (Document.object members).hasDistinctKeys = true) {key : Option String}
    {document : Document} (member : (key, document) ∈ members) :
    (∃ depth, document.isReadable depth = true) ∧ document.hasDistinctKeys = true := by
  refine ⟨?_, (Document.hasDistinctKeys_object.1 distinct).2 _ member⟩
  cases depth with
  | zero => cases readable
  | succ depth => exact ⟨depth, (Document.membersAreReadable_iff.1 readable _ member).2⟩

theorem exists_pinnedMap_iff {document : Document} (distinct : document.hasDistinctKeys = true) :
    (∃ named, Decode.map version document = .ok named ∧
        ∀ name ∈ named.names, PackageName.isValid name = true) ↔
      ∃ entries, document = .object entries ∧ ArePinned entries := by
  simp only [NameMap.names, List.forall_mem_map]
  cases document with
  | object entries =>
      obtain ⟨keys, _⟩ := Document.hasDistinctKeys_object.1 distinct
      rw [exists_map_iff keys]
      simp only [Document.object.injEq, exists_eq_left', ArePinned, ← exists_version_iff]
      refine forall₂_congr fun entry _ => exists_congr fun name => ?_
      constructor
      · rintro ⟨value, named, decoded, valid⟩
        exact ⟨named, valid, value, decoded⟩
      · rintro ⟨named, valid, value, decoded⟩
        exact ⟨value, named, decoded, valid⟩
  | _ => simp [Decode.map]

theorem exists_pinnedGroup_iff {depth : Nat} {document : Document}
    (readable : document.isReadable depth = true) (distinct : document.hasDistinctKeys = true)
    (noArray : ∀ items, document ≠ .array items) :
    (∃ pinned, pinnedVersions document = .ok pinned ∧
        ∃ dependencies, pinnedDependencies pinned.direct pinned.indirect = .ok dependencies) ↔
      IsPinnedGroup document := by
  simp only [pinnedDependencies_eq_ok, Dependencies.ofMaps_eq_ok, List.forall_mem_append]
  cases document with
  | array items => exact (noArray items rfl).elim
  | object members =>
      obtain ⟨keys, parts⟩ := Document.hasDistinctKeys_object.1 distinct
      simp only [pinnedVersions_eq_ok (Decode.areProper_of_isReadable readable keys)]
      have names {entries : List (Option String × Document)} {named : NameMap Version}
          {key : String} (member : (some key, .object entries) ∈ members)
          (decoded : Decode.map version (.object entries) = .ok named) :=
        mem_names_of_map (Document.hasDistinctKeys_object.1 (parts _ member)).1 decoded
      constructor
      · rintro ⟨⟨direct, indirect⟩, ⟨⟨_, directMember, directRead⟩,
          ⟨_, indirectMember, indirectRead⟩⟩, _, ⟨directValid, indirectValid⟩, apart, _⟩
        obtain ⟨directEntries, rfl, directPinned⟩ :=
          (exists_pinnedMap_iff (parts _ directMember)).1 ⟨direct, directRead, directValid⟩
        obtain ⟨indirectEntries, rfl, indirectPinned⟩ :=
          (exists_pinnedMap_iff (parts _ indirectMember)).1
            ⟨indirect, indirectRead, indirectValid⟩
        refine ⟨members, directEntries, indirectEntries, rfl, directMember, directPinned,
          indirectMember, indirectPinned, fun name inDirect inIndirect => ?_⟩
        exact apart name ((names directMember directRead name).2 inDirect)
          ((names indirectMember indirectRead name).2 inIndirect)
      · rintro ⟨_, directEntries, indirectEntries, same, directMember, directPinned,
          indirectMember, indirectPinned, apart⟩
        obtain rfl := Document.object.inj same
        obtain ⟨direct, directRead, directValid⟩ :=
          (exists_pinnedMap_iff (parts _ directMember)).2 ⟨directEntries, rfl, directPinned⟩
        obtain ⟨indirect, indirectRead, indirectValid⟩ :=
          (exists_pinnedMap_iff (parts _ indirectMember)).2
            ⟨indirectEntries, rfl, indirectPinned⟩
        refine ⟨⟨direct, indirect⟩, ⟨⟨_, directMember, directRead⟩,
          ⟨_, indirectMember, indirectRead⟩⟩, _, ⟨directValid, indirectValid⟩,
          fun name inDirect inIndirect => ?_, rfl⟩
        exact apart name ((names directMember directRead name).1 inDirect)
          ((names indirectMember indirectRead name).1 inIndirect)
  | _ => simp [IsPinnedGroup, pinnedVersions, Decode.draft, bind_eq_ok]

theorem exists_resolve?_iff {disk : Disk} {cache : PackageCache} {name : String}
    {constraint : Constraint} :
    (∃ version, cache.resolve? disk name constraint = some version) ↔
      IsResolvable disk cache name constraint := by
  unfold PackageCache.resolve? IsResolvable
  cases admitted : (cache.installed disk name).filter constraint.satisfies with
  | nil =>
      have none : ¬∃ version ∈ cache.installed disk name, constraint.satisfies version = true := by
        rintro ⟨version, listed, satisfied⟩
        exact List.filter_eq_nil_iff.1 admitted version listed satisfied
      rw [or_iff_right none]
      rfl
  | cons version versions =>
      have inside : version ∈ (cache.installed disk name).filter constraint.satisfies :=
        admitted ▸ List.mem_cons_self
      obtain ⟨listed, satisfied⟩ := List.mem_filter.1 inside
      simp only [Version.latest?]
      exact iff_of_true ⟨_, rfl⟩ (.inl ⟨version, listed, satisfied⟩)

theorem exists_resolvableGroup_iff {disk : Disk} {cache : PackageCache} {document : Document}
    (distinct : document.hasDistinctKeys = true) :
    (∃ constraints, Decode.map constraint document = .ok constraints ∧
        ∃ dependencies, resolveConstraints disk cache constraints none = .ok dependencies) ↔
      IsResolvableGroup disk cache document := by
  simp only [exists_resolveConstraints_iff, pin?_unlocked, exists_resolve?_iff]
  cases document with
  | object entries =>
      obtain ⟨keys, _⟩ := Document.hasDistinctKeys_object.1 distinct
      rw [exists_map_iff keys, IsResolvableGroup]
      simp only [Document.object.injEq, exists_eq_left', constraint_eq_ok]
      refine forall₂_congr fun entry _ => ?_
      obtain ⟨key, document⟩ := entry
      constructor
      · rintro ⟨name, value, rfl, ⟨text, rfl, parsed⟩, valid, resolvable⟩
        exact ⟨name, text, value, rfl, valid, parsed, resolvable⟩
      · rintro ⟨name, text, value, same, valid, parsed, resolvable⟩
        obtain ⟨rfl, rfl⟩ := Prod.mk.inj same
        exact ⟨name, value, rfl, ⟨text, rfl, parsed⟩, valid, resolvable⟩
  | _ => simp [IsResolvableGroup, Decode.map]

theorem exists_applicationOf_iff (path : Path) (tests : Option Path)
    (record : ApplicationRecord) :
    (∃ project, applicationOf path tests record = .ok project) ↔
      record.sourceDirectories ≠ [] ∧
      (∃ dependencies, pinnedDependencies record.dependencies.direct
        record.dependencies.indirect = .ok dependencies) ∧
      ∃ dependencies, pinnedDependencies record.testDependencies.direct
        record.testDependencies.indirect = .ok dependencies := by
  simp only [applicationOf, bind_eq_ok, sourceDirectories_eq_ok]
  constructor
  · rintro ⟨_, _, ⟨nonempty, _⟩, dependencies, pinned, testDependencies, testPinned, _⟩
    exact ⟨nonempty, ⟨dependencies, pinned⟩, testDependencies, testPinned⟩
  · rintro ⟨nonempty, ⟨dependencies, pinned⟩, testDependencies, testPinned⟩
    exact ⟨_, _, ⟨nonempty, rfl⟩, dependencies, pinned, testDependencies, testPinned, rfl⟩

theorem exists_packageOf_iff (disk : Disk) (cache : PackageCache) (path : Path)
    (tests : Option Path) (record : PackageRecord) :
    (∃ project, packageOf disk cache path tests record = .ok project) ↔
      (∃ dependencies,
        resolveConstraints disk cache record.dependencies none = .ok dependencies) ∧
      ∃ dependencies,
        resolveConstraints disk cache record.testDependencies none = .ok dependencies := by
  simp only [packageOf, bind_eq_ok]
  constructor
  · rintro ⟨_, dependencies, resolved, testDependencies, testResolved, _⟩
    exact ⟨⟨dependencies, resolved⟩, testDependencies, testResolved⟩
  · rintro ⟨⟨dependencies, resolved⟩, testDependencies, testResolved⟩
    exact ⟨_, dependencies, resolved, testDependencies, testResolved, rfl⟩

section Members

variable {members : List (Option String × Document)}

theorem has_iff {α : Type} {name : String} {decode : Decoder α} {accepted : α → Prop}
    {described : Document → Prop}
    (same : ∀ document, (some name, document) ∈ members →
      ((∃ value, decode document = .ok value ∧ accepted value) ↔ described document)) :
    Has members name described ↔ ∃ value, Holds members name decode value ∧ accepted value := by
  constructor
  · rintro ⟨document, member, isDescribed⟩
    obtain ⟨value, decoded, isAccepted⟩ := (same document member).2 isDescribed
    exact ⟨value, ⟨document, member, decoded⟩, isAccepted⟩
  · rintro ⟨value, ⟨document, member, decoded⟩, isAccepted⟩
    exact ⟨document, member, (same document member).1 ⟨value, decoded, isAccepted⟩⟩

theorem has_iff_exists_holds {α : Type} {name : String} {decode : Decoder α}
    {described : Document → Prop}
    (same : ∀ {document}, (∃ value, decode document = .ok value) ↔ described document) :
    Has members name described ↔ ∃ value, Holds members name decode value := by
  have all : Has members name described ↔
      ∃ value, Holds members name decode value ∧ True :=
    has_iff fun _ _ => by simpa using same
  simpa using all

section Application

variable (readable : (Document.object members).isReadable nestingLimit = true)
  (distinct : (Document.object members).hasDistinctKeys = true)

include readable distinct

theorem has_pinnedGroup_iff {key : String} (noArray : ∀ items, (some key, .array items) ∉ members) :
    Has members key IsPinnedGroup ↔
      ∃ pinned, Holds members key pinnedVersions pinned ∧
        ∃ dependencies, pinnedDependencies pinned.direct pinned.indirect = .ok dependencies := by
  refine has_iff fun document member => ?_
  obtain ⟨⟨depth, partReadable⟩, partDistinct⟩ := of_mem_object readable distinct member
  refine exists_pinnedGroup_iff partReadable partDistinct fun items same => ?_
  exact noArray items (same ▸ member)

theorem has_resolvableGroup_iff {disk : Disk} {cache : PackageCache} {key : String} :
    Has members key (IsResolvableGroup disk cache) ↔
      ∃ constraints, Holds members key (Decode.map constraint) constraints ∧
        ∃ dependencies,
          resolveConstraints disk cache constraints none = .ok dependencies :=
  has_iff fun _ member =>
    exists_resolvableGroup_iff (of_mem_object readable distinct member).2

theorem exists_application_iff
    (noArrays : (some "type", .text (some "application")) ∈ members →
      ∀ key ∈ ["dependencies", "test-dependencies"], ∀ items,
        (some key, .array items) ∉ members)
    {path : Path} {tests : Option Path} :
    (∃ record project, currentRecord (.object members) = .ok (.application record) ∧
        applicationOf path tests record = .ok project) ↔ DescribesApplication members := by
  obtain ⟨keys, _⟩ := Document.hasDistinctKeys_object.1 distinct
  have directories : Has members "source-directories"
      (fun document => IsTexts document ∧ document ≠ .array []) ↔ _ :=
    has_iff fun document _ => exists_sourceDirectories_iff
  constructor
  · rintro ⟨record, project, decoded, built⟩
    obtain ⟨_, same, type, holds⟩ | ⟨_, same, _⟩ := (currentRecord_eq_ok readable keys).1 decoded
    · obtain rfl := CurrentRecord.application.inj same
      obtain ⟨nonempty, pinned, testPinned⟩ :=
        (exists_applicationOf_iff path tests record).1 ⟨project, built⟩
      exact {
        type := ⟨_, type, rfl⟩
        sourceDirectories := directories.2 ⟨_, holds.sourceDirectories, nonempty⟩
        elmVersion := (has_iff_exists_holds exists_version_iff).2 ⟨_, holds.elmVersion⟩
        dependencies := (has_pinnedGroup_iff readable distinct
          (noArrays type _ (by simp))).2 ⟨_, holds.dependencies, pinned⟩
        testDependencies := (has_pinnedGroup_iff readable distinct
          (noArrays type _ (by simp))).2 ⟨_, holds.testDependencies, testPinned⟩ }
    · cases same
  · intro describes
    obtain ⟨_, type, rfl⟩ := describes.type
    obtain ⟨given, givenHeld, nonempty⟩ := directories.1 describes.sourceDirectories
    obtain ⟨elmVersion, elmVersionHeld⟩ :=
      (has_iff_exists_holds exists_version_iff).1 describes.elmVersion
    obtain ⟨dependencies, dependenciesHeld, pinned⟩ := (has_pinnedGroup_iff readable distinct
      (noArrays type _ (by simp))).1 describes.dependencies
    obtain ⟨testDependencies, testHeld, testPinned⟩ := (has_pinnedGroup_iff readable distinct
      (noArrays type _ (by simp))).1 describes.testDependencies
    let record : ApplicationRecord := ⟨given, elmVersion, dependencies, testDependencies⟩
    have holds : HoldsApplication members record :=
      ⟨givenHeld, elmVersionHeld, dependenciesHeld, testHeld⟩
    obtain ⟨project, built⟩ :=
      (exists_applicationOf_iff path tests record).2 ⟨nonempty, pinned, testPinned⟩
    exact ⟨record, project,
      (currentRecord_eq_ok readable keys).2 (.inl ⟨record, rfl, type, holds⟩), built⟩

theorem exists_package_iff {disk : Disk} {cache : PackageCache} {path : Path}
    {tests : Option Path} :
    (∃ record project, currentRecord (.object members) = .ok (.package record) ∧
        packageOf disk cache path tests record = .ok project) ↔
      DescribesPackage disk cache members := by
  obtain ⟨keys, _⟩ := Document.hasDistinctKeys_object.1 distinct
  constructor
  · rintro ⟨record, project, decoded, built⟩
    obtain ⟨_, same, _⟩ | ⟨_, same, type, holds⟩ := (currentRecord_eq_ok readable keys).1 decoded
    · cases same
    · obtain rfl := CurrentRecord.package.inj same
      obtain ⟨resolved, testResolved⟩ :=
        (exists_packageOf_iff disk cache path tests record).1 ⟨project, built⟩
      exact {
        type := ⟨_, type, rfl⟩
        name := (has_iff_exists_holds Decode.exists_text_iff).2 ⟨_, holds.name⟩
        summary := (has_iff_exists_holds Decode.exists_text_iff).2 ⟨_, holds.summary⟩
        license := (has_iff_exists_holds Decode.exists_text_iff).2 ⟨_, holds.license⟩
        version := (has_iff_exists_holds exists_version_iff).2 ⟨_, holds.version⟩
        exposedModules :=
          (has_iff_exists_holds exists_exposedModules_iff).2 ⟨_, holds.exposedModules⟩
        elmVersion := (has_iff_exists_holds exists_constraint_iff).2 ⟨_, holds.elmVersion⟩
        dependencies := (has_resolvableGroup_iff readable distinct).2
          ⟨_, holds.dependencies, resolved⟩
        testDependencies := (has_resolvableGroup_iff readable distinct).2
          ⟨_, holds.testDependencies, testResolved⟩ }
  · intro describes
    obtain ⟨_, type, rfl⟩ := describes.type
    obtain ⟨name, nameHeld⟩ := (has_iff_exists_holds Decode.exists_text_iff).1 describes.name
    obtain ⟨summary, summaryHeld⟩ :=
      (has_iff_exists_holds Decode.exists_text_iff).1 describes.summary
    obtain ⟨license, licenseHeld⟩ :=
      (has_iff_exists_holds Decode.exists_text_iff).1 describes.license
    obtain ⟨version, versionHeld⟩ :=
      (has_iff_exists_holds exists_version_iff).1 describes.version
    obtain ⟨modules, modulesHeld⟩ :=
      (has_iff_exists_holds exists_exposedModules_iff).1 describes.exposedModules
    obtain ⟨elmVersion, elmVersionHeld⟩ :=
      (has_iff_exists_holds exists_constraint_iff).1 describes.elmVersion
    obtain ⟨dependencies, dependenciesHeld, resolved⟩ :=
      (has_resolvableGroup_iff readable distinct).1 describes.dependencies
    obtain ⟨testDependencies, testHeld, testResolved⟩ :=
      (has_resolvableGroup_iff readable distinct).1 describes.testDependencies
    let record : PackageRecord := ⟨name, summary, license, version, modules, elmVersion,
      dependencies, testDependencies⟩
    have holds : HoldsPackage members record := ⟨nameHeld, summaryHeld, licenseHeld, versionHeld,
      modulesHeld, elmVersionHeld, dependenciesHeld, testHeld⟩
    obtain ⟨project, built⟩ :=
      (exists_packageOf_iff disk cache path tests record).2 ⟨resolved, testResolved⟩
    exact ⟨record, project,
      (currentRecord_eq_ok readable keys).2 (.inr ⟨record, rfl, type, holds⟩), built⟩

end Application

end Members

theorem decodeAs_eq_ok {α : Type} {decode : Decoder α} {text : List Char} {document : Document}
    (isDocument : IsDocument text document) {value : α} :
    decodeAs decode (String.ofList text).toUTF8 = .ok value ↔ decode document = .ok value := by
  rw [decodeAs, bytes_of_isDocument decode isDocument]
  cases decode document <;> simp

section Parsing

variable {disk : Disk} {cache : PackageCache} {content : ByteArray} {path : Path}
  {project : Project} {tests : Option Path}

theorem isApplication_of_applicationOf {record : ApplicationRecord}
    (built : applicationOf path tests record = .ok project) :
    project.kind.isApplication = true := by
  obtain ⟨_, _, built⟩ := bind_eq_ok.1 built
  obtain ⟨_, _, built⟩ := bind_eq_ok.1 built
  obtain ⟨_, _, built⟩ := bind_eq_ok.1 built
  obtain rfl := Except.ok.inj built
  rfl

theorem isApplication_of_packageOf {record : PackageRecord}
    (built : packageOf disk cache path tests record = .ok project) :
    project.kind.isApplication = false := by
  obtain ⟨_, _, built⟩ := bind_eq_ok.1 built
  obtain ⟨_, _, built⟩ := bind_eq_ok.1 built
  obtain rfl := Except.ok.inj built
  rfl

/-- A manifest gives an application by way of an application's record. -/
theorem parseCurrent_eq_ok_of_application :
    parseCurrent disk cache content path = .ok project ∧ project.kind.isApplication = true ↔
      ∃ tests record, loadSidecar disk path.directory = .ok tests ∧
        decodeAs currentRecord content = .ok (.application record) ∧
        applicationOf path tests record = .ok project := by
  simp only [parseCurrent, bind_eq_ok, objectTo_eq_ok]
  constructor
  · rintro ⟨⟨record, decoded, tests, loaded, built⟩, kind⟩
    cases record with
    | application record => exact ⟨tests, record, loaded, decoded, objectTo_eq_ok.1 built⟩
    | package record =>
        rw [isApplication_of_packageOf (objectTo_eq_ok.1 built)] at kind
        cases kind
  · rintro ⟨tests, record, loaded, decoded, built⟩
    exact ⟨⟨_, decoded, tests, loaded, objectTo_eq_ok.2 built⟩,
      isApplication_of_applicationOf built⟩

theorem parseCurrent_eq_ok_of_package :
    parseCurrent disk cache content path = .ok project ∧ project.kind.isApplication = false ↔
      ∃ tests record, loadSidecar disk path.directory = .ok tests ∧
        decodeAs currentRecord content = .ok (.package record) ∧
        packageOf disk cache path tests record = .ok project := by
  simp only [parseCurrent, bind_eq_ok, objectTo_eq_ok]
  constructor
  · rintro ⟨⟨record, decoded, tests, loaded, built⟩, kind⟩
    cases record with
    | application record =>
        rw [isApplication_of_applicationOf (objectTo_eq_ok.1 built)] at kind
        cases kind
    | package record => exact ⟨tests, record, loaded, decoded, objectTo_eq_ok.1 built⟩
  · rintro ⟨tests, record, loaded, decoded, built⟩
    exact ⟨⟨_, decoded, tests, loaded, objectTo_eq_ok.2 built⟩,
      isApplication_of_packageOf built⟩

end Parsing

/-- Let a text be an object whose keys are different everywhere and whose parts can be
read, and in an application let no group of dependencies be an array.  As an `elm.json`
it gives an application exactly if it describes one and no sidecar stands in the way,
and it gives a package exactly if it describes one and no sidecar stands in the way. -/
theorem accepted_iff_described {text : List Char} {members : List (Option String × Document)}
    (isDocument : IsDocument text (.object members))
    (readable : (Document.object members).isReadable nestingLimit = true)
    (distinct : (Document.object members).hasDistinctKeys = true)
    (noArrays : (some "type", .text (some "application")) ∈ members →
      ∀ key ∈ ["dependencies", "test-dependencies"], ∀ items,
        (some key, .array items) ∉ members)
    (path : Path) (named : path.fileName? = some "elm.json") (disk : Disk)
    (cache : PackageCache) :
    ((∃ project, parse disk cache (String.ofList text).toUTF8 path = .ok project ∧
        project.kind.isApplication = true) ↔
      DescribesApplication members ∧ HasUsableSidecar disk path.directory) ∧
    ((∃ project, parse disk cache (String.ofList text).toUTF8 path = .ok project ∧
        project.kind.isApplication = false) ↔
      DescribesPackage disk cache members ∧ HasUsableSidecar disk path.directory) := by
  have current : Schema.ofPath? path = some .current := by
    rw [Schema.ofPath?, named]
    rfl
  simp only [parse, current, parseAs, parseCurrent_eq_ok_of_application,
    parseCurrent_eq_ok_of_package, decodeAs_eq_ok isDocument, ← exists_loadSidecar_iff]
  constructor
  · constructor
    · rintro ⟨project, tests, record, loaded, decoded, built⟩
      exact ⟨(exists_application_iff readable distinct noArrays).1
        ⟨record, project, decoded, built⟩, tests, loaded⟩
    · rintro ⟨describes, tests, loaded⟩
      obtain ⟨record, project, decoded, built⟩ :=
        (exists_application_iff readable distinct noArrays).2 describes
      exact ⟨project, tests, record, loaded, decoded, built⟩
  · constructor
    · rintro ⟨project, tests, record, loaded, decoded, built⟩
      exact ⟨(exists_package_iff readable distinct).1 ⟨record, project, decoded, built⟩,
        tests, loaded⟩
    · rintro ⟨describes, tests, loaded⟩
      obtain ⟨record, project, decoded, built⟩ :=
        (exists_package_iff readable distinct).2 describes
      exact ⟨project, tests, record, loaded, decoded, built⟩

/-- An application whose tag comes last and that has a member of an unknown name. -/
def scatteredText : List Char :=
  '{' :: quoted "extra" (':' :: '[' :: quoted "" (']' :: ',' ::
  quoted "test-dependencies" (':' :: '{' :: quoted "indirect" (':' :: '{' :: '}' :: ',' ::
    quoted "direct" (':' :: '{' :: '}' :: '}' :: ',' ::
  quoted "dependencies" (':' :: '{' :: quoted "direct" (':' :: '{' ::
      quoted "elm/core" (':' :: quoted "1.0.5" ('}' :: ',' ::
    quoted "indirect" (':' :: '{' :: '}' :: '}' :: ',' ::
  quoted "elm-version" (':' :: quoted "0.19.1" (',' ::
  quoted "source-directories" (':' :: '[' :: quoted "src" (']' :: ',' ::
  quoted "type" (':' :: quoted "application" ['}', '\n'])))))))))))))))

def scatteredMembers : List (Option String × Document) :=
  [(some "extra", .array [.text (some "")]),
    (some "test-dependencies",
      .object [(some "indirect", .object []), (some "direct", .object [])]),
    (some "dependencies", .object [
      (some "direct", .object [(some "elm/core", .text (some "1.0.5"))]),
      (some "indirect", .object [])]),
    (some "elm-version", .text (some "0.19.1")),
    (some "source-directories", .array [.text (some "src")]),
    (some "type", .text (some "application"))]

private theorem isDocument_scatteredText : IsDocument scatteredText (.object scatteredMembers) := by
  have none (rest : List Char) : Spells ('{' :: '}' :: rest) (.object []) rest :=
    .emptyObject (.refl _)
  have single {content : String} (plain : IsPlain content) (rest : List Char) :
      Spells ('[' :: quoted content (']' :: rest)) (.array [.text (some content)]) rest :=
    .array (.last (.refl _) (spells_quoted plain _) (.refl _))
  refine ⟨scatteredText, ['\n'], .refl _, .object ?_, ⟨['\n'], by simp [blanks], rfl⟩⟩
  exact spellsMembers_quoted_cons (by decide) (single (by decide) _) <|
    spellsMembers_quoted_cons (by decide) (.object (spellsMembers_quoted_cons (by decide)
      (none _) (spellsMembers_quoted (by decide) (none _)))) <|
    spellsMembers_quoted_cons (by decide) (.object (spellsMembers_quoted_cons (by decide)
      (.object (spellsMembers_quoted (by decide) (spells_quoted (by decide) _)))
      (spellsMembers_quoted (by decide) (none _)))) <|
    spellsMembers_quoted_cons (by decide) (spells_quoted (by decide) _) <|
    spellsMembers_quoted_cons (by decide) (single (by decide) _) <|
    spellsMembers_quoted (by decide) (spells_quoted (by decide) _)

private theorem describes_scatteredMembers : DescribesApplication scatteredMembers where
  type := ⟨.text (some "application"), by simp [scatteredMembers], rfl⟩
  sourceDirectories := ⟨.array [.text (some "src")], by simp [scatteredMembers],
    ⟨[.text (some "src")], rfl, by simp [IsText]⟩, by simp⟩
  elmVersion := ⟨.text (some "0.19.1"), by simp [scatteredMembers], "0.19.1", ⟨0, 19, 1⟩, rfl,
    by decide +kernel⟩
  dependencies := by
    have core : ArePinned [(some "elm/core", .text (some "1.0.5"))] := by
      refine List.forall_mem_singleton.2 ⟨"elm/core", rfl, by decide +kernel, ?_⟩
      exact ⟨"1.0.5", ⟨1, 0, 5⟩, rfl, by decide +kernel⟩
    refine ⟨_, List.mem_of_getElem? (i := 2) rfl, _, _, _, rfl, List.mem_cons_self, core,
      List.mem_of_getElem? (i := 1) rfl, ?_, ?_⟩
    · simp [ArePinned]
    · simp
  testDependencies := by
    refine ⟨_, List.mem_of_getElem? (i := 1) rfl, _, _, _, rfl, List.mem_of_getElem? (i := 1) rfl,
      ?_, List.mem_cons_self, ?_, ?_⟩
    · simp [ArePinned]
    · simp [ArePinned]
    · simp

/-- The order of the members does not matter, nor does a member of an unknown name. -/
theorem accepted_iff_described_scattered :
    DescribesApplication scatteredMembers ∧
    ∃ project, parse (companionDisk (some exampleSidecar) none) .empty
        (String.ofList scatteredText).toUTF8 ⟨"/p/elm.json"⟩ = .ok project ∧
      project.kind.isApplication = true := by
  have sidecar : HasUsableSidecar (companionDisk (some exampleSidecar) none)
      (Path.directory ⟨"/p/elm.json"⟩) :=
    .inr ⟨exampleSidecar.toUTF8, ⟨"spec"⟩, by decide +kernel, by decide +kernel⟩
  have accepted := accepted_iff_described isDocument_scatteredText (by decide) (by decide)
    (by simp [scatteredMembers]) ⟨"/p/elm.json"⟩ (by decide +kernel)
    (companionDisk (some exampleSidecar) none) .empty
  exact ⟨describes_scatteredMembers, accepted.1.2 ⟨describes_scatteredMembers, sidecar⟩⟩

end ElmAtlas.Manifest
