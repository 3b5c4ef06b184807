import ElmAtlas.Version
import Mathlib.Data.List.Nodup
import Mathlib.Order.Bounds.Basic
import Mathlib.Order.MinMax

/-!
# The order of versions

Versions are ordered by their numbers, the major number first.  The next patch release
is the least of all later versions.  Sorting a list of versions depends on its members
only, and the latest version of a list is its greatest member.
-/

namespace ElmAtlas.Version

variable {left right version : Version}

theorem lt_iff :
    left < right ↔
      left.major.toNat < right.major.toNat ∨
        left.major.toNat = right.major.toNat ∧
          (left.minor.toNat < right.minor.toNat ∨
            left.minor.toNat = right.minor.toNat ∧ left.patch.toNat < right.patch.toNat) := by
  have unfolded : left < right ↔ left.precedes right = true := Iff.rfl
  rw [unfolded, precedes]
  simp [UInt64.lt_iff_toNat_lt, UInt64.toNat_inj]

theorem le_iff_not_lt : left ≤ right ↔ ¬right < left :=
  Iff.rfl

/-- Versions with the same numbers are the same. -/
theorem eq_of_toNat_eq (major : left.major.toNat = right.major.toNat)
    (minor : left.minor.toNat = right.minor.toNat)
    (patch : left.patch.toNat = right.patch.toNat) : left = right := by
  cases left
  cases right
  congr
  · exact UInt64.toNat_inj.1 major
  · exact UInt64.toNat_inj.1 minor
  · exact UInt64.toNat_inj.1 patch

instance : LinearOrder Version where
  le_refl version := by
    rw [le_iff_not_lt, lt_iff]
    omega
  le_trans first second third := by
    simp only [le_iff_not_lt, lt_iff]
    omega
  le_antisymm left right := by
    intro notAbove notBelow
    simp only [le_iff_not_lt, lt_iff] at notAbove notBelow
    apply eq_of_toNat_eq <;> omega
  le_total left right := by
    simp only [le_iff_not_lt, lt_iff]
    omega
  lt_iff_le_not_ge left right := by
    simp only [le_iff_not_lt, lt_iff]
    omega
  toDecidableLE := inferInstance

theorem nextPatch?_eq_none :
    version.nextPatch? = none ↔ version.patch.toNat = UInt64.size - 1 := by
  have bounded : version.patch.toNat < UInt64.size := version.patch.toNat_lt_size
  unfold nextPatch?
  split
  · rename_i free
    constructor
    · intro nothing
      cases nothing
    · omega
  · rename_i exhausted
    constructor
    · omega
    · intro
      rfl

/-- The next patch release is the least of all later versions. -/
theorem lt_iff_le_of_nextPatch? {next : Version} (found : version.nextPatch? = some next)
    (other : Version) : version < other ↔ next ≤ other := by
  unfold nextPatch? at found
  split at found
  · rename_i free
    obtain rfl := Option.some.inj found
    have raised : (version.patch + 1).toNat = version.patch.toNat + 1 := by
      rw [UInt64.toNat_add]
      exact Nat.mod_eq_of_lt free
    rw [le_iff_not_lt, lt_iff, lt_iff]
    simp only [raised]
    omega
  · cases found

theorem mem_insertOnce {versions : List Version} :
    version ∈ insertOnce left versions ↔ version = left ∨ version ∈ versions := by
  induction versions with
  | nil => simp [insertOnce]
  | cons head tail induction =>
      rw [insertOnce]
      split
      · rw [List.mem_cons]
      · rename_i notBelow
        split
        · rw [List.mem_cons, induction, List.mem_cons]
          exact or_left_comm
        · rename_i notAbove
          have same : head = left := le_antisymm notBelow notAbove
          rw [same, List.mem_cons, or_self_left]

/-- A version put into a strictly ascending list leaves it so. -/
private theorem insertOnce_pairwise {versions : List Version}
    (ascends : versions.Pairwise (· < ·)) :
    (insertOnce version versions).Pairwise (· < ·) := by
  induction ascends with
  | nil => exact List.pairwise_singleton _ _
  | @cons head tail first rest induction =>
      rw [insertOnce]
      split
      · rename_i below
        apply List.Pairwise.cons
        · intro other member
          rcases List.mem_cons.1 member with same | later
          · rw [same]
            exact below
          · exact lt_trans below (first other later)
        · exact List.Pairwise.cons first rest
      · split
        · rename_i above
          apply List.Pairwise.cons
          · intro other member
            rcases mem_insertOnce.1 member with same | later
            · rw [same]
              exact above
            · exact first other later
          · exact induction
        · exact List.Pairwise.cons first rest

theorem mem_sortOnce {versions : List Version} :
    version ∈ sortOnce versions ↔ version ∈ versions := by
  induction versions with
  | nil => rfl
  | cons head tail induction =>
      have step : sortOnce (head :: tail) = insertOnce head (sortOnce tail) := rfl
      rw [step, mem_insertOnce, induction, List.mem_cons]

theorem sortOnce_pairwise (versions : List Version) :
    (sortOnce versions).Pairwise (· < ·) := by
  induction versions with
  | nil => exact List.Pairwise.nil
  | cons head tail induction => exact insertOnce_pairwise induction

/-- Strictly ascending lists are the same if their members are. -/
theorem eq_of_pairwise_of_mem_iff {first second : List Version}
    (firstAscends : first.Pairwise (· < ·)) (secondAscends : second.Pairwise (· < ·))
    (same : ∀ version, version ∈ first ↔ version ∈ second) : first = second := by
  have permutes : first.Perm second :=
    (List.perm_ext_iff_of_nodup (firstAscends.imp ne_of_lt) (secondAscends.imp ne_of_lt)).2 same
  apply permutes.eq_of_pairwise _ firstAscends secondAscends
  intro left right _ _ below above
  exact absurd below (lt_asymm above)

theorem latest_eq_max (left right : Version) : latest left right = max left right := by
  unfold latest
  split
  · rename_i below
    exact (max_eq_left (le_of_lt below)).symm
  · rename_i notBelow
    exact (max_eq_right notBelow).symm

theorem latest?_eq_max? (versions : List Version) : latest? versions = versions.max? := by
  cases versions with
  | nil => rfl
  | cons head tail =>
      have pointwise : latest = max := funext fun left => funext (latest_eq_max left)
      rw [latest?, pointwise, List.max?_cons']

theorem latest?_eq_none {versions : List Version} :
    latest? versions = none ↔ versions = [] := by
  rw [latest?_eq_max?, List.max?_eq_none_iff]

/-- The latest version of a list is its greatest member. -/
theorem isGreatest_of_latest? {versions : List Version}
    (found : latest? versions = some version) : IsGreatest {other | other ∈ versions} version := by
  rw [latest?_eq_max?, List.max?_eq_some_iff] at found
  exact found

end ElmAtlas.Version
