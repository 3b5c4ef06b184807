import ElmAtlas.Manifest.Load
import ElmAtlas.Proofs.Manifest.Identity
import Mathlib.Data.List.Induction
import Mathlib.Data.List.Nodup

/-!
# Which maps make dependencies

Two maps from names to versions make the dependencies of a project exactly if all
their names are valid and no name is in both.  The lists then are in the order of
the names, because maps are.
-/

namespace ElmAtlas

namespace NameMap

variable {α : Type}

theorem pairwise_names (map : NameMap α) : map.names.Pairwise (· < ·) :=
  List.pairwise_map.2 map.ascending

theorem nodup_names (map : NameMap α) : map.names.Nodup := by
  refine map.pairwise_names.imp ?_
  rintro left right below rfl
  exact String.lt_irrefl left below

private theorem mem_insertEntry {name : String} {value : α} {entries : List (String × α)}
    (ascending : entries.Pairwise fun left right => left.1 < right.1) {entry : String × α} :
    entry ∈ insertEntry name value entries ↔
      entry = (name, value) ∨ (entry ∈ entries ∧ entry.1 ≠ name) := by
  induction entries with
  | nil => simp [insertEntry]
  | cons head rest induction =>
      obtain ⟨key, old⟩ := head
      obtain ⟨first, later⟩ := List.pairwise_cons.1 ascending
      have apart (notBehind : ¬key < name) (member : entry ∈ rest) : entry.1 ≠ name := by
        rintro rfl
        exact notBehind (first entry member)
      rw [insertEntry]
      split
      · rename_i before
        have different : entry ∈ (key, old) :: rest → entry.1 ≠ name := by
          intro member
          rcases List.mem_cons.1 member with rfl | member
          · rintro rfl
            exact String.lt_irrefl _ before
          · exact apart (String.lt_asymm before) member
        rw [List.mem_cons, and_iff_left_of_imp different]
      · split
        · rename_i _ behind
          have different : entry = (key, old) → entry.1 ≠ name := by
            rintro rfl rfl
            exact String.lt_irrefl _ behind
          rw [List.mem_cons, List.mem_cons, induction later, or_and_right,
            and_iff_left_of_imp different, or_left_comm]
        · rename_i notBefore notBehind
          have same : key = name := String.le_antisymm notBefore notBehind
          rw [List.mem_cons, List.mem_cons, or_and_right,
            and_iff_left_of_imp (apart notBehind)]
          have gone : ¬(entry = (key, old) ∧ entry.1 ≠ name) := by
            rintro ⟨rfl, different⟩
            exact different same
          rw [or_iff_right gone]

/-- A map of different names holds what it is made of. -/
theorem mem_entries_ofList {entries : List (String × α)}
    (distinct : (entries.map Prod.fst).Nodup) {entry : String × α} :
    entry ∈ (ofList entries).entries ↔ entry ∈ entries := by
  induction entries using List.reverseRecOn with
  | nil => simp [ofList, empty]
  | append_singleton front last induction =>
      have parts := List.nodup_append.1 (List.map_append ▸ distinct)
      have different : entry ∈ front → entry.1 ≠ last.1 := by
        intro member
        exact parts.2.2 _ (List.mem_map_of_mem member) _ (by simp)
      have built : ofList (front ++ [last]) = (ofList front).insert last.1 last.2 := by
        simp [ofList]
      rw [built, NameMap.insert, mem_insertEntry (ofList front).ascending, induction parts.1,
        and_iff_left_of_imp different, List.mem_append, List.mem_singleton, or_comm]

theorem mem_names_ofList {entries : List (String × α)}
    (distinct : (entries.map Prod.fst).Nodup) {name : String} :
    name ∈ (ofList entries).names ↔ name ∈ entries.map Prod.fst := by
  simp only [names, List.mem_map, mem_entries_ofList distinct]

/-- Maps with the same entries are equal, because the entries are in order. -/
theorem eq_of_mem_iff {left right : NameMap α}
    (same : ∀ entry, entry ∈ left.entries ↔ entry ∈ right.entries) : left = right := by
  have distinct (map : NameMap α) : map.entries.Nodup := List.Nodup.of_map _ map.nodup_names
  have permutes : left.entries.Perm right.entries :=
    (List.perm_ext_iff_of_nodup (distinct left) (distinct right)).2 same
  have entries : left.entries = right.entries := by
    apply permutes.eq_of_pairwise _ left.ascending right.ascending
    intro first second _ _ below above
    exact absurd (String.lt_trans below above) (String.lt_irrefl _)
  cases left
  cases right
  simpa using entries

/-- Entries that are in order make the map that lists them. -/
theorem ofList_eq {entries : List (String × α)}
    (ascending : entries.Pairwise fun first second => first.1 < second.1) :
    ofList entries = ⟨entries, ascending⟩ := by
  apply eq_of_mem_iff
  intro entry
  apply mem_entries_ofList
  exact nodup_names ⟨entries, ascending⟩

theorem get?_eq_some {map : NameMap α} {name : String} {value : α} :
    map.get? name = some value ↔ (name, value) ∈ map.entries := by
  rw [get?, List.lookup_eq_some_iff]
  constructor
  · intro found
    obtain ⟨before, after, whole, _⟩ := found
    rw [whole]
    exact List.mem_append_right _ List.mem_cons_self
  · intro member
    obtain ⟨before, after, whole⟩ := List.append_of_mem member
    refine ⟨before, after, whole, ?_⟩
    intro entry earlier
    have ascending := map.ascending
    rw [whole] at ascending
    have below := (List.pairwise_append.1 ascending).2.2 entry earlier _ List.mem_cons_self
    rw [bne_iff_ne]
    intro equal
    rw [equal] at below
    exact String.lt_irrefl _ below

theorem exists_get?_iff {map : NameMap α} {name : String} :
    (∃ value, map.get? name = some value) ↔ name ∈ map.names := by
  simp only [get?_eq_some, names, List.mem_map, Prod.exists, exists_and_right, exists_eq_right]

theorem contains_eq_true {map : NameMap α} {name : String} :
    map.contains name = true ↔ name ∈ map.names := by
  rw [contains, Option.isSome_iff_exists, exists_get?_iff]

theorem mem_entries_filterNames {map : NameMap α} {keeps : String → Bool}
    {entry : String × α} :
    entry ∈ (map.filterNames keeps).entries ↔ entry ∈ map.entries ∧ keeps entry.1 = true :=
  List.mem_filter

theorem mem_names_filterNames {map : NameMap α} {keeps : String → Bool} {name : String} :
    name ∈ (map.filterNames keeps).names ↔ name ∈ map.names ∧ keeps name = true := by
  simp only [← exists_get?_iff, get?_eq_some, mem_entries_filterNames, exists_and_right]

end NameMap

namespace Dependencies

theorem checkNames_eq_ok {seen names : List String} :
    checkNames seen names = .ok () ↔
      (∀ name ∈ names, PackageName.isValid name = true) ∧
      (∀ name ∈ names, name ∉ seen) ∧ names.Nodup := by
  induction names generalizing seen with
  | nil => simp [checkNames]
  | cons name names induction =>
      rw [checkNames]
      by_cases valid : PackageName.isValid name = true
      · by_cases known : name ∈ seen
        · simp [valid, known]
        · simp only [valid, known, Bool.not_true, Bool.false_eq_true, if_false,
            List.contains_eq_mem, decide_false, List.forall_mem_cons, List.nodup_cons,
            not_false_eq_true, true_and]
          rw [induction]
          simp only [List.mem_cons, not_or]
          constructor
          · rintro ⟨valids, fresh, distinct⟩
            exact ⟨valids, fun other listed => (fresh other listed).2,
              fun listed => (fresh name listed).1 rfl, distinct⟩
          · rintro ⟨valids, fresh, new, distinct⟩
            refine ⟨valids, fun other listed => ⟨?_, fresh other listed⟩, distinct⟩
            rintro rfl
            exact new listed
      · simp [valid]

/-- Maps make dependencies if their names are valid and in one of them only. -/
theorem ofMaps_eq_ok {direct indirect : NameMap Version} {dependencies : Dependencies} :
    ofMaps direct indirect = .ok dependencies ↔
      (∀ name ∈ direct.names ++ indirect.names, PackageName.isValid name = true) ∧
      (∀ name ∈ direct.names, name ∉ indirect.names) ∧
      dependencies = ⟨listed direct, listed indirect⟩ := by
  have distinct : (direct.names ++ indirect.names).Nodup ↔
      ∀ name ∈ direct.names, name ∉ indirect.names := by
    rw [List.nodup_append]
    constructor
    · rintro ⟨_, _, apart⟩ name inDirect inIndirect
      exact apart name inDirect name inIndirect rfl
    · intro apart
      refine ⟨direct.nodup_names, indirect.nodup_names, ?_⟩
      rintro name inDirect _ inIndirect rfl
      exact apart name inDirect inIndirect
  rw [ofMaps, bind_eq_ok]
  constructor
  · rintro ⟨_, checked, built⟩
    obtain ⟨valid, _, nodup⟩ := checkNames_eq_ok.1 checked
    exact ⟨valid, distinct.1 nodup, (Except.ok.inj built).symm⟩
  · rintro ⟨valid, apart, rfl⟩
    exact ⟨(), checkNames_eq_ok.2 ⟨valid, by simp, distinct.2 apart⟩, rfl⟩

@[simp] theorem map_name_listed (map : NameMap Version) :
    (listed map).map Dependency.name = map.names := by
  simp [listed, NameMap.names]

/-- The invariant of dependencies. -/
structure IsOrderly (dependencies : Dependencies) : Prop where
  directAscending : (dependencies.direct.map Dependency.name).Pairwise (· < ·)
  indirectAscending : (dependencies.indirect.map Dependency.name).Pairwise (· < ·)
  apart : ∀ name ∈ dependencies.direct.map Dependency.name,
    name ∉ dependencies.indirect.map Dependency.name
  valid : ∀ dependency ∈ dependencies.all, PackageName.isValid dependency.name = true

theorem isOrderly_empty : empty.IsOrderly :=
  ⟨List.Pairwise.nil, List.Pairwise.nil, by simp [empty], by simp [empty, all]⟩

theorem isOrderly_of_ofMaps {direct indirect : NameMap Version} {dependencies : Dependencies}
    (built : ofMaps direct indirect = .ok dependencies) : dependencies.IsOrderly := by
  obtain ⟨valid, apart, rfl⟩ := ofMaps_eq_ok.1 built
  constructor
  · rw [map_name_listed]
    exact direct.pairwise_names
  · rw [map_name_listed]
    exact indirect.pairwise_names
  · simpa only [map_name_listed] using apart
  · intro dependency listed
    have named : dependency.name ∈ direct.names ++ indirect.names := by
      rw [← map_name_listed, ← map_name_listed, ← List.map_append]
      exact List.mem_map_of_mem listed
    exact valid _ named

end Dependencies

namespace Manifest

theorem pinnedDependencies_eq_ok {direct indirect : NameMap Version}
    {dependencies : Dependencies} :
    pinnedDependencies direct indirect = .ok dependencies ↔
      Dependencies.ofMaps direct indirect = .ok dependencies := by
  unfold pinnedDependencies
  cases Dependencies.ofMaps direct indirect <;> simp

/-- The version of a name: the locked one, or else what its constraint resolves to. -/
def pin? (disk : Disk) (cache : PackageCache) (locked : Option (NameMap Version))
    (name : String) (constraint : Constraint) : Option Version :=
  (locked.bind (·.get? name)).or (cache.resolve? disk name constraint)

theorem pin?_unlocked (disk : Disk) (cache : PackageCache) (name : String)
    (constraint : Constraint) :
    pin? disk cache none name constraint = cache.resolve? disk name constraint := by
  rw [pin?, Option.bind_none, Option.none_or]

theorem exists_pinConstraints_iff {disk : Disk} {cache : PackageCache}
    {locked : Option (NameMap Version)} {constraints : List (String × Constraint)} :
    (∃ pinned, pinConstraints disk cache locked constraints = .ok pinned) ↔
      ∀ entry ∈ constraints, ∃ version, pin? disk cache locked entry.1 entry.2 = some version := by
  induction constraints with
  | nil => simp [pinConstraints]
  | cons entry constraints induction =>
      obtain ⟨name, constraint⟩ := entry
      rw [List.forall_mem_cons, ← induction]
      simp only [pin?, pinConstraints]
      cases (locked.bind (·.get? name)).or (cache.resolve? disk name constraint) with
      | none => simp
      | some version =>
          simp only [bind_eq_ok]
          constructor
          · rintro ⟨_, rest, later, _⟩
            exact ⟨⟨version, rfl⟩, rest, later⟩
          · rintro ⟨_, rest, later⟩
            exact ⟨_, rest, later, rfl⟩

theorem pin?_of_pinConstraints {disk : Disk} {cache : PackageCache}
    {locked : Option (NameMap Version)} {constraints : List (String × Constraint)}
    {pinned : List (String × Version)}
    (success : pinConstraints disk cache locked constraints = .ok pinned) :
    ∀ entry ∈ pinned, ∃ constraint, (entry.1, constraint) ∈ constraints ∧
      pin? disk cache locked entry.1 constraint = some entry.2 := by
  induction constraints generalizing pinned with
  | nil =>
      obtain rfl := Except.ok.inj success
      exact List.forall_mem_nil _
  | cons entry constraints induction =>
      obtain ⟨name, constraint⟩ := entry
      rw [pinConstraints] at success
      split at success
      · cases success
      · rename_i version found
        obtain ⟨rest, later, built⟩ := bind_eq_ok.1 success
        obtain rfl := Except.ok.inj built
        rw [List.forall_mem_cons]
        refine ⟨⟨constraint, List.mem_cons_self, found⟩, ?_⟩
        intro entry member
        obtain ⟨other, listed, pins⟩ := induction later entry member
        exact ⟨other, List.mem_cons_of_mem _ listed, pins⟩

theorem fst_of_pinConstraints {disk : Disk} {cache : PackageCache}
    {locked : Option (NameMap Version)} {constraints : List (String × Constraint)}
    {pinned : List (String × Version)}
    (success : pinConstraints disk cache locked constraints = .ok pinned) :
    pinned.map Prod.fst = constraints.map Prod.fst := by
  induction constraints generalizing pinned with
  | nil =>
      obtain rfl := Except.ok.inj success
      rfl
  | cons entry constraints induction =>
      obtain ⟨name, constraint⟩ := entry
      rw [pinConstraints] at success
      split at success
      · cases success
      · obtain ⟨rest, later, built⟩ := bind_eq_ok.1 success
        obtain rfl := Except.ok.inj built
        rw [List.map_cons, List.map_cons, induction later]

/-- Constraints are resolved if their names are valid and each has a version. -/
theorem exists_resolveConstraints_iff {disk : Disk} {cache : PackageCache}
    {constraints : NameMap Constraint} {locked : Option (NameMap Version)} :
    (∃ dependencies, resolveConstraints disk cache constraints locked = .ok dependencies) ↔
      ∀ entry ∈ constraints.entries, PackageName.isValid entry.1 = true ∧
        ∃ version, pin? disk cache locked entry.1 entry.2 = some version := by
  have sameNames {pinned : List (String × Version)}
      (success : pinConstraints disk cache locked constraints.entries = .ok pinned) :
      ∀ name, name ∈ (NameMap.ofList pinned).names ↔ name ∈ constraints.names := by
    have same : pinned.map Prod.fst = constraints.names := fst_of_pinConstraints success
    rw [← same]
    exact fun name => NameMap.mem_names_ofList (same ▸ constraints.nodup_names)
  have named : (∀ name ∈ constraints.names, PackageName.isValid name = true) ↔
      ∀ entry ∈ constraints.entries, PackageName.isValid entry.1 = true := List.forall_mem_map
  rw [forall₂_and, ← named, ← exists_pinConstraints_iff]
  simp only [resolveConstraints, bind_eq_ok, pinnedDependencies_eq_ok, Dependencies.ofMaps_eq_ok]
  constructor
  · rintro ⟨_, pinned, success, valid, _⟩
    refine ⟨fun name listed => valid name ?_, pinned, success⟩
    exact List.mem_append_left _ ((sameNames success name).2 listed)
  · rintro ⟨valid, pinned, success⟩
    refine ⟨_, pinned, success, fun name listed => valid name ?_, fun name _ => ?_, rfl⟩
    · rcases List.mem_append.1 listed with inside | nothing
      · exact (sameNames success name).1 inside
      · cases nothing
    · exact List.not_mem_nil

/-- What is resolved from constraints is direct. -/
theorem indirect_of_resolveConstraints {disk : Disk} {cache : PackageCache}
    {constraints : NameMap Constraint} {locked : Option (NameMap Version)}
    {dependencies : Dependencies}
    (resolved : resolveConstraints disk cache constraints locked = .ok dependencies) :
    dependencies.IsOrderly ∧ dependencies.indirect = [] := by
  obtain ⟨pinned, _, built⟩ := bind_eq_ok.1 resolved
  have made := pinnedDependencies_eq_ok.1 built
  refine ⟨Dependencies.isOrderly_of_ofMaps made, ?_⟩
  obtain ⟨_, _, rfl⟩ := Dependencies.ofMaps_eq_ok.1 made
  rfl

end Manifest

end ElmAtlas
