import ElmAtlas.Constraint
import ElmAtlas.Proofs.Version.Order

/-!
# The lowest version of a constraint

The lower bound of a constraint leaves the versions from some version on, and whatever
lies below a version that keeps the upper bound keeps it as well.  So the first version
above the lower bound is the lowest of the range, or the range is empty.  A bound that
has no next patch release has no first version above it.
-/

namespace ElmAtlas

namespace Comparison

variable {comparison : Comparison} {version bound : Version}

theorem holds_below : below.holds version bound = true ↔ version < bound := by
  simp [holds]

theorem holds_atMost : atMost.holds version bound = true ↔ version ≤ bound := by
  simp [holds]

/-- An upper bound is kept by everything below a version that keeps it. -/
theorem holds_of_le {lower : Version} (lies : lower ≤ version)
    (kept : comparison.holds version bound = true) :
    comparison.holds lower bound = true := by
  cases comparison with
  | below =>
      rw [holds_below] at kept ⊢
      exact lt_of_le_of_lt lies kept
  | atMost =>
      rw [holds_atMost] at kept ⊢
      exact le_trans lies kept

end Comparison

namespace Constraint

variable {constraint : Constraint} {version : Version}

theorem satisfies_iff :
    constraint.satisfies version = true ↔
      constraint.lowOp.holds constraint.low version = true ∧
        constraint.highOp.holds version constraint.high = true := by
  rw [satisfies, Bool.and_eq_true]

/-- The first version above the lower bound, unless the patch numbers are exhausted. -/
def floor? (constraint : Constraint) : Option Version :=
  match constraint.lowOp with
  | .atMost => some constraint.low
  | .below => constraint.low.nextPatch?

theorem leastVersion?_eq_filter (constraint : Constraint) :
    constraint.leastVersion? = constraint.floor?.filter constraint.satisfies := by
  unfold leastVersion? floor?
  cases constraint.lowOp with
  | atMost => rfl
  | below => cases constraint.low.nextPatch? <;> rfl

theorem floor?_eq_none :
    constraint.floor? = none ↔
      constraint.lowOp = .below ∧ constraint.low.patch.toNat = UInt64.size - 1 := by
  unfold floor?
  cases constraint.lowOp with
  | atMost => simp
  | below => rw [Version.nextPatch?_eq_none, and_iff_right rfl]

/-- The versions above the lower bound are those from the floor on. -/
theorem lowOp_holds_iff {floor : Version} (found : constraint.floor? = some floor) :
    constraint.lowOp.holds constraint.low version = true ↔ floor ≤ version := by
  unfold floor? at found
  cases comparison : constraint.lowOp with
  | atMost =>
      rw [comparison] at found
      rw [Comparison.holds_atMost, Option.some.inj found]
  | below =>
      rw [comparison] at found
      rw [Comparison.holds_below]
      exact Version.lt_iff_le_of_nextPatch? found version

theorem leastVersion?_eq_some {least : Version} :
    constraint.leastVersion? = some least ↔
      constraint.floor? = some least ∧ constraint.satisfies least = true := by
  rw [leastVersion?_eq_filter, Option.filter_eq_some_iff]

/-- A range that holds a version holds its floor. -/
theorem satisfies_floor {floor : Version} (found : constraint.floor? = some floor)
    (admitted : constraint.satisfies version = true) : constraint.satisfies floor = true := by
  rw [satisfies_iff] at admitted ⊢
  have above : floor ≤ version := (lowOp_holds_iff found).1 admitted.1
  constructor
  · exact (lowOp_holds_iff found).2 (le_refl floor)
  · exact Comparison.holds_of_le above admitted.2

theorem isLeast_of_leastVersion? {least : Version}
    (found : constraint.leastVersion? = some least) :
    IsLeast {version | constraint.satisfies version = true} least := by
  obtain ⟨floor, admitted⟩ := leastVersion?_eq_some.1 found
  constructor
  · exact admitted
  · intro version satisfied
    exact (lowOp_holds_iff floor).1 (satisfies_iff.1 satisfied).1

theorem leastVersion?_eq_none :
    constraint.leastVersion? = none ↔
      (∀ version, constraint.satisfies version = false) ∨ constraint.floor? = none := by
  rw [leastVersion?_eq_filter]
  cases found : constraint.floor? with
  | none => simp
  | some floor =>
      rw [Option.filter_some]
      constructor
      · intro refused
        left
        intro version
        rw [← Bool.not_eq_true]
        intro admitted
        rw [if_pos (satisfies_floor found admitted)] at refused
        cases refused
      · intro empty
        rcases empty with empty | missing
        · rw [empty floor]
          rfl
        · cases missing

/-- The lowest version of a constraint is the least of all versions that satisfy it.  There
is none exactly if no version satisfies the constraint, or the lower bound itself is left
out and has the greatest patch number. -/
theorem leastVersion?_least_admitted (constraint : Constraint) :
    (∀ least, constraint.leastVersion? = some least →
      IsLeast {version | constraint.satisfies version = true} least) ∧
    (constraint.leastVersion? = none ↔
      (∀ version, constraint.satisfies version = false) ∨
        constraint.lowOp = .below ∧ constraint.low.patch.toNat = UInt64.size - 1) := by
  constructor
  · intro least found
    exact isLeast_of_leastVersion? found
  · rw [leastVersion?_eq_none, floor?_eq_none]

/-- Beyond the greatest patch number the range goes on, but its lowest version is not found;
a range whose bounds are in the wrong order holds nothing. -/
theorem leastVersion?_least_admitted_exhausted :
    IsLeast {version | (Constraint.mk ⟨1, 2, 3⟩ .below .below ⟨1, 3, 0⟩).satisfies version = true}
      ⟨1, 2, 4⟩ ∧
    (Constraint.mk ⟨1, 0, 18446744073709551615⟩ .below .below ⟨2, 0, 0⟩).leastVersion? = none ∧
    (Constraint.mk ⟨1, 0, 18446744073709551615⟩ .below .below ⟨2, 0, 0⟩).satisfies ⟨1, 1, 0⟩ =
      true ∧
    ∀ version, (Constraint.mk ⟨2, 0, 0⟩ .atMost .atMost ⟨1, 0, 0⟩).satisfies version = false := by
  obtain ⟨least, _⟩ := leastVersion?_least_admitted ⟨⟨1, 2, 3⟩, .below, .below, ⟨1, 3, 0⟩⟩
  obtain ⟨_, exhausted⟩ :=
    leastVersion?_least_admitted ⟨⟨1, 0, 18446744073709551615⟩, .below, .below, ⟨2, 0, 0⟩⟩
  obtain ⟨_, inverted⟩ := leastVersion?_least_admitted ⟨⟨2, 0, 0⟩, .atMost, .atMost, ⟨1, 0, 0⟩⟩
  refine ⟨least _ (by decide), exhausted.2 (.inr ⟨rfl, by decide⟩), by decide, ?_⟩
  exact (inverted.1 (by decide)).resolve_right (by decide)

end Constraint

end ElmAtlas
