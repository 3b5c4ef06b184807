import ElmAtlas.Path.Basic

/-!
# The order of paths

Paths are sorted by their components, and components by their kind and their text.
This is a strict order, and two paths of which neither comes before the other have
the same components.
-/

namespace ElmAtlas

namespace Component

theorem comesBefore_iff {left right : Component} :
    left.comesBefore right = true ↔
      left.rank < right.rank ∨
        ∃ text other, left = name text ∧ right = name other ∧ text < other := by
  cases left <;> cases right <;> simp [comesBefore, rank]

theorem not_comesBefore_self (component : Component) :
    component.comesBefore component = false := by
  cases component with
  | root => rfl
  | current => rfl
  | parent => rfl
  | name text => exact decide_eq_false (String.lt_irrefl text)

theorem comesBefore_trans {first second third : Component}
    (left : first.comesBefore second = true) (right : second.comesBefore third = true) :
    first.comesBefore third = true := by
  rw [comesBefore_iff] at left right ⊢
  rcases left with lower | ⟨text, other, rfl, rfl, below⟩
  · rcases right with higher | ⟨_, _, rfl, rfl, _⟩
    · exact .inl (Nat.lt_trans lower higher)
    · exact .inl lower
  · rcases right with higher | ⟨_, last, same, rfl, above⟩
    · exact .inl higher
    · obtain rfl := name.inj same
      exact .inr ⟨text, last, rfl, rfl, String.lt_trans below above⟩

private theorem eq_of_not_comesBefore {left right : Component}
    (notBefore : left.comesBefore right = false) (notAfter : right.comesBefore left = false) :
    left = right := by
  rw [← Bool.not_eq_true, comesBefore_iff, not_or] at notBefore notAfter
  have sameRank : left.rank = right.rank :=
    Nat.le_antisymm (Nat.not_lt.1 notAfter.1) (Nat.not_lt.1 notBefore.1)
  cases left with
  | name text =>
      cases right with
      | name other =>
          have notBelow : ¬text < other := fun below => notBefore.2 ⟨_, _, rfl, rfl, below⟩
          have notAbove : ¬other < text := fun above => notAfter.2 ⟨_, _, rfl, rfl, above⟩
          exact congrArg name (String.le_antisymm notAbove notBelow)
      | _ => simp [rank] at sameRank
  | _ => cases right <;> simp [rank] at sameRank ⊢

end Component

namespace Path

theorem not_componentsBefore_self (components : List Component) :
    componentsBefore components components = false := by
  induction components with
  | nil => rfl
  | cons component components induction => simp [componentsBefore, induction]

theorem componentsBefore_trans {first second third : List Component}
    (left : componentsBefore first second = true)
    (right : componentsBefore second third = true) : componentsBefore first third = true := by
  induction first generalizing second third with
  | nil =>
      cases third with
      | nil => simp [componentsBefore] at right
      | cons => rfl
  | cons head rest induction =>
      cases second with
      | nil => simp [componentsBefore] at left
      | cons middle middles =>
          cases third with
          | nil => simp [componentsBefore] at right
          | cons last lasts =>
              simp only [componentsBefore, beq_iff_eq] at left right ⊢
              by_cases same : head = middle
              · subst same
                rw [if_pos rfl] at left
                by_cases alike : head = last
                · rw [if_pos alike] at right ⊢
                  exact induction left right
                · rw [if_neg alike] at right ⊢
                  exact right
              · rw [if_neg same] at left
                by_cases alike : middle = last
                · subst alike
                  rw [if_neg same]
                  exact left
                · rw [if_neg alike] at right
                  have below := Component.comesBefore_trans left right
                  have different : head ≠ last := by
                    rintro rfl
                    rw [Component.not_comesBefore_self] at below
                    cases below
                  rw [if_neg different]
                  exact below

theorem eq_of_not_componentsBefore {left right : List Component}
    (notBefore : componentsBefore left right = false)
    (notAfter : componentsBefore right left = false) : left = right := by
  induction left generalizing right with
  | nil =>
      cases right with
      | nil => rfl
      | cons => simp [componentsBefore] at notBefore
  | cons head rest induction =>
      cases right with
      | nil => simp [componentsBefore] at notAfter
      | cons other others =>
          by_cases same : head = other
          · subst same
            simp only [componentsBefore, beq_self_eq_true, if_true] at notBefore notAfter
            rw [induction notBefore notAfter]
          · have different : other ≠ head := fun alike => same alike.symm
            simp only [componentsBefore, beq_iff_eq, same, different, if_false]
              at notBefore notAfter
            exact (same (Component.eq_of_not_comesBefore notBefore notAfter)).elim

theorem not_comesBefore_of_comesBefore {left right : Path}
    (before : left.comesBefore right = true) : right.comesBefore left = false := by
  rw [← Bool.not_eq_true]
  intro after
  have around := componentsBefore_trans before after
  rw [not_componentsBefore_self] at around
  cases around

/-- Sorting puts paths in ascending order. -/
theorem pairwise_mergeSort_comesBefore (paths : List Path) :
    (paths.mergeSort fun left right => !right.comesBefore left).Pairwise
      fun left right => right.comesBefore left = false := by
  have sorted : (paths.mergeSort fun left right => !right.comesBefore left).Pairwise
      fun left right => (!right.comesBefore left) = true := by
    apply List.pairwise_mergeSort
    · intro first second third firstSecond secondThird
      simp only [Bool.not_eq_true'] at firstSecond secondThird ⊢
      rw [← Bool.not_eq_true]
      intro below
      -- The third comes before the first, and the second does not stand between them.
      by_cases rising : first.comesBefore second = true
      · have contrary := componentsBefore_trans below rising
        rw [comesBefore] at secondThird
        rw [contrary] at secondThird
        cases secondThird
      · have same : first.components = second.components :=
          eq_of_not_componentsBefore (Bool.eq_false_iff.2 rising) firstSecond
        rw [comesBefore, same] at below
        rw [comesBefore, below] at secondThird
        cases secondThird
    · intro first second
      cases before : second.comesBefore first with
      | false => rfl
      | true => simp [not_comesBefore_of_comesBefore before]
  exact sorted.imp fun ordered => by simpa using ordered

end Path

end ElmAtlas
