import ElmAtlas.Proofs.Path.NormalForm
import Mathlib.Data.List.Induction

/-!
# Normal forms and joined paths

Normalising keeps a stack of components.  Whatever the stack holds, the components of a
path and those of its normal form change it in the same way, so a path may be normalised
before it is joined to a base or after.  A relative path in normal form goes up some times
and then down some names; where it leads from a place tells how often and which.  So two
paths have the same normal form exactly if they lead to the same place from everywhere.
-/

namespace ElmAtlas.Path

/-- A component that is taken by a stack may as well be taken after the stack. -/
private theorem foldl_reverse_normalizeStep (kept stack : List Component) (component : Component) :
    (normalizeStep stack component).reverse.foldl normalizeStep kept =
      normalizeStep (stack.reverse.foldl normalizeStep kept) component := by
  have pushed : (component :: stack).reverse.foldl normalizeStep kept =
      normalizeStep (stack.reverse.foldl normalizeStep kept) component := by
    rw [List.reverse_cons, List.foldl_append]
    rfl
  cases component with
  | root => exact pushed
  | name text => exact pushed
  | current => rfl
  | parent =>
      cases stack with
      | nil => exact pushed
      | cons last earlier =>
          cases last with
          | parent => exact pushed
          | current => exact pushed
          | root =>
              have settled : normalizeStep (.root :: earlier) .parent = .root :: earlier := rfl
              rw [settled, List.reverse_cons, List.foldl_append]
              rfl
          | name text =>
              rw [List.reverse_cons, List.foldl_append]
              rfl

/-- Components and what normalising leaves of them change every stack in the same way. -/
theorem foldl_normalizeComponents (components kept : List Component) :
    (normalizeComponents components).foldl normalizeStep kept =
      components.foldl normalizeStep kept := by
  induction components using List.reverseRecOn with
  | nil => rfl
  | append_singleton components component induction =>
      rw [normalizeComponents, List.foldl_append, List.foldl_append, List.foldl_cons,
        List.foldl_nil, List.foldl_cons, List.foldl_nil, foldl_reverse_normalizeStep,
        ← normalizeComponents, induction]

private theorem foldl_components_normalize (path : Path) (kept : List Component) :
    path.normalize.components.foldl normalizeStep kept =
      path.components.foldl normalizeStep kept := by
  rw [components_normalize, ← foldl_normalizeComponents path.components]
  split
  · rename_i nothing
    rw [nothing]
    rfl
  · rfl

theorem foldl_bareComponents (path : Path) (kept : List Component) :
    path.bareComponents.foldl normalizeStep kept = path.components.foldl normalizeStep kept := by
  rw [← foldl_normalizeComponents path.bareComponents, ← foldl_normalizeComponents path.components,
    normalizeComponents_components]

private theorem mem_of_mem_normalizeStep {kept : List Component} {component step : Component}
    (member : component ∈ normalizeStep kept step) : component = step ∨ component ∈ kept := by
  unfold normalizeStep at member
  split at member
  · exact .inr member
  · exact .inr (List.mem_cons_of_mem _ member)
  · exact .inr member
  · exact List.mem_cons.1 member

theorem mem_of_mem_foldl_normalizeStep {components kept : List Component} {component : Component}
    (member : component ∈ components.foldl normalizeStep kept) :
    component ∈ components ∨ component ∈ kept := by
  induction components generalizing kept with
  | nil => exact .inr member
  | cons first rest induction =>
      rcases induction member with later | stepped
      · exact .inl (List.mem_cons_of_mem _ later)
      · rcases mem_of_mem_normalizeStep stepped with same | old
        · rw [same]
          exact .inl List.mem_cons_self
        · exact .inr old

/-- A relative path that goes up some times and then down some names. -/
structure Climbs (path : Path) (ups : Nat) (names : List String) : Prop where
  relative : path.isAbsolute = false
  proper : ∀ name ∈ names, IsEntryName name
  normal : normalizeComponents path.components =
    List.replicate ups .parent ++ names.map .name

theorem exists_climbs {path : Path} (relative : path.isAbsolute = false) :
    ∃ ups names, path.Climbs ups names := by
  obtain ⟨start, names, beginning, proper, normal⟩ := isNormal_normalizeComponents path
  rcases beginning with rooted | ⟨ups, climbing⟩
  · -- A root in the normal form would be a component of the path.
    have inside : Component.root ∈ normalizeComponents path.components := by
      rw [normal, rooted]
      exact List.mem_cons_self
    rw [normalizeComponents_components, normalizeComponents, List.mem_reverse] at inside
    rcases mem_of_mem_foldl_normalizeStep inside with given | nothing
    · rw [bareComponents, relative] at given
      exact (isStep_of_mem_pieces given).elim
    · exact absurd nothing List.not_mem_nil
  · rw [climbing] at normal
    exact ⟨ups, names, relative, proper, normal⟩

/-- Normalising keeps a path relative or absolute. -/
theorem isAbsolute_normalize (path : Path) : path.normalize.isAbsolute = path.isAbsolute := by
  cases absolute : path.isAbsolute with
  | true => exact (isPlace_normalize absolute).isAbsolute
  | false =>
      obtain ⟨ups, names, climbs⟩ := exists_climbs absolute
      rcases (isNormal_normalizeComponents path).cases with ⟨below, _, rooted⟩ | ⟨steps, written⟩
      · rw [climbs.normal] at rooted
        cases ups with
        | zero => cases names <;> cases rooted
        | succ ups => cases rooted
      · rw [normalize]
        split
        · rfl
        · rw [written]
          exact isAbsolute_ofSteps steps

theorem normalizeComponents_join {path : Path} (relative : path.isAbsolute = false)
    (base : Path) :
    normalizeComponents (base.join path).components =
      (path.components.foldl normalizeStep (base.components.foldl normalizeStep [])).reverse := by
  rw [normalizeComponents_components, bareComponents_join relative, normalizeComponents,
    List.foldl_append, foldl_bareComponents, foldl_bareComponents]

theorem normalize_eq_iff {left right : Path} :
    left.normalize = right.normalize ↔
      normalizeComponents left.components = normalizeComponents right.components := by
  constructor
  · intro same
    rw [← normalizeComponents_normalize left, same, normalizeComponents_normalize]
  · intro same
    rw [normalize, normalize, same]

/-- A path may be normalised before it is joined to a base. -/
theorem normalize_join_normalize (base path : Path) :
    (base.join path.normalize).normalize = (base.join path).normalize := by
  cases absolute : path.isAbsolute with
  | true =>
      have normalAbsolute := isAbsolute_normalize path
      rw [absolute] at normalAbsolute
      rw [join, join, if_pos normalAbsolute, if_pos absolute, normalize_normalize]
  | false =>
      have normalRelative := isAbsolute_normalize path
      rw [absolute] at normalRelative
      rw [normalize_eq_iff, normalizeComponents_join normalRelative,
        normalizeComponents_join absolute, foldl_components_normalize]

private theorem foldl_normalizeStep_parents (names : List String) (kept : List Component) :
    (List.replicate names.length .parent).foldl normalizeStep
      ((names.map .name).reverse ++ kept) = kept := by
  induction names using List.reverseRecOn with
  | nil => rfl
  | append_singleton names last induction =>
      rw [List.length_append, List.length_singleton, List.replicate_succ, List.foldl_cons,
        List.map_append, List.reverse_append]
      exact induction

namespace Climbs

variable {path : Path} {ups : Nat} {names : List String}

/-- Going up takes away the last names of a place, and going down adds names. -/
theorem absolutize_ofNames (climbs : path.Climbs ups names) {front back : List String}
    (frontProper : ∀ name ∈ front, IsEntryName name)
    (backProper : ∀ name ∈ back, IsEntryName name) (enough : back.length = ups) :
    path.absolutize (ofNames (front ++ back)) = ofNames (front ++ names) := by
  have proper : ∀ name ∈ front ++ back, IsEntryName name := by
    intro name listed
    rcases List.mem_append.1 listed with inFront | inBack
    · exact frontProper name inFront
    · exact backProper name inBack
  have begun : (ofNames (front ++ back)).components.foldl normalizeStep [] =
      (back.map .name).reverse ++ ((front.map .name).reverse ++ [.root]) := by
    rw [components_ofNames proper, List.foldl_cons, foldl_normalizeStep_names, List.map_append,
      List.reverse_append, List.append_assoc]
    rfl
  apply normalize_of_rooted
  rw [normalizeComponents_join climbs.relative, begun, ← foldl_normalizeComponents path.components,
    climbs.normal, List.foldl_append, ← enough, foldl_normalizeStep_parents,
    foldl_normalizeStep_names]
  simp

end Climbs

/-- The paths lead to the same place from every directory. -/
def LeadsAlike (left right : Path) : Prop :=
  ∀ base : Path, base.isAbsolute = true → left.absolutize base = right.absolutize base

private theorem isEntryName_of_mem_replicate {name : String} (proper : IsEntryName name)
    (count : Nat) :
    ∀ other ∈ List.replicate count name, IsEntryName other := by
  intro other listed
  rw [(List.mem_replicate.1 listed).2]
  exact proper

/-- Two proper names, to make places that differ. -/
private theorem exists_proper_names :
    ∃ first second : String, IsEntryName first ∧ IsEntryName second ∧ first ≠ second :=
  ⟨"a", "b", by decide, by decide, by decide⟩

namespace LeadsAlike

variable {left right : Path} {ups otherUps extra : Nat} {names otherNames : List String}

theorem symm (alike : left.LeadsAlike right) : right.LeadsAlike left := by
  intro base absolute
  exact (alike base absolute).symm

/-- Of two paths that lead alike, the one that goes up less often goes down the names that
the other one leaves. -/
private theorem replicate_append_eq (alike : left.LeadsAlike right) (climbs : left.Climbs ups names)
    (otherClimbs : right.Climbs (ups + extra) otherNames)
    {name : String} (proper : IsEntryName name) :
    List.replicate extra name ++ names = otherNames := by
  have many := isEntryName_of_mem_replicate proper
  have kept : left.absolutize (ofNames (List.replicate extra name ++ List.replicate ups name)) =
      ofNames (List.replicate extra name ++ names) :=
    climbs.absolutize_ofNames (many extra) (many ups) List.length_replicate
  have lost : right.absolutize (ofNames ([] ++ List.replicate (ups + extra) name)) =
      ofNames ([] ++ otherNames) :=
    otherClimbs.absolutize_ofNames (by simp) (many (ups + extra)) List.length_replicate
  rw [List.nil_append, List.nil_append, Nat.add_comm, ← List.replicate_append_replicate,
    ← alike _ (isAbsolute_ofNames _), kept] at lost
  apply ofNames_injOn _ otherClimbs.proper lost
  intro other listed
  rcases List.mem_append.1 listed with front | behind
  · exact many extra other front
  · exact climbs.proper other behind

theorem climbs_eq_of_le (alike : left.LeadsAlike right) (climbs : left.Climbs ups names)
    (otherClimbs : right.Climbs otherUps otherNames) (less : ups ≤ otherUps) :
    ups = otherUps ∧ names = otherNames := by
  obtain ⟨extra, rfl⟩ := Nat.exists_eq_add_of_le less
  obtain ⟨first, second, firstProper, secondProper, different⟩ := exists_proper_names
  have fromFirst := alike.replicate_append_eq climbs otherClimbs firstProper
  have fromSecond := alike.replicate_append_eq climbs otherClimbs secondProper
  have same : List.replicate extra first = List.replicate extra second := by
    rw [← fromSecond] at fromFirst
    exact List.append_cancel_right fromFirst
  have none : extra = 0 := (List.replicate_inj.1 same).2.resolve_right different
  subst none
  exact ⟨rfl, fromFirst⟩

private theorem climbs_eq (alike : left.LeadsAlike right) (climbs : left.Climbs ups names)
    (otherClimbs : right.Climbs otherUps otherNames) : ups = otherUps ∧ names = otherNames := by
  rcases Nat.le_total ups otherUps with less | more
  · exact alike.climbs_eq_of_le climbs otherClimbs less
  · obtain ⟨sameUps, sameNames⟩ := alike.symm.climbs_eq_of_le otherClimbs climbs more
    exact ⟨sameUps.symm, sameNames.symm⟩

/-- Where a relative path leads depends on the place, and where an absolute one leads
does not. -/
theorem isAbsolute_eq_false (alike : left.LeadsAlike right) (climbs : right.Climbs ups names) :
    left.isAbsolute = false := by
  rw [← Bool.not_eq_true]
  intro absolute
  obtain ⟨first, second, firstProper, secondProper, different⟩ := exists_proper_names
  have led {name : String} (proper : IsEntryName name) :
      left.normalize = ofNames ([name] ++ names) := by
    rw [← absolutize_of_isAbsolute absolute (ofNames ([name] ++ List.replicate ups name)),
      alike _ (isAbsolute_ofNames _)]
    apply climbs.absolutize_ofNames
    · simpa using proper
    · exact isEntryName_of_mem_replicate proper ups
    · exact List.length_replicate
  have proper {name : String} (nameProper : IsEntryName name) :
      ∀ other ∈ [name] ++ names, IsEntryName other := by
    simpa using ⟨nameProper, climbs.proper⟩
  have same := ofNames_injOn (proper firstProper) (proper secondProper)
    ((led firstProper).symm.trans (led secondProper))
  exact different (List.cons.inj same).1

theorem normalize_eq (alike : left.LeadsAlike right) : left.normalize = right.normalize := by
  cases leftAbsolute : left.isAbsolute with
  | false =>
      obtain ⟨ups, names, climbs⟩ := exists_climbs leftAbsolute
      obtain ⟨otherUps, otherNames, otherClimbs⟩ :=
        exists_climbs (alike.symm.isAbsolute_eq_false climbs)
      obtain ⟨sameUps, sameNames⟩ := alike.climbs_eq climbs otherClimbs
      rw [normalize_eq_iff, climbs.normal, otherClimbs.normal, sameUps, sameNames]
  | true =>
      cases rightAbsolute : right.isAbsolute with
      | false =>
          obtain ⟨ups, names, climbs⟩ := exists_climbs rightAbsolute
          rw [alike.isAbsolute_eq_false climbs] at leftAbsolute
          cases leftAbsolute
      | true =>
          rw [← absolutize_of_isAbsolute leftAbsolute ⟨"/"⟩,
            ← absolutize_of_isAbsolute rightAbsolute ⟨"/"⟩]
          exact alike ⟨"/"⟩ rfl

end LeadsAlike

theorem absolutize_normalize (path base : Path) :
    path.normalize.absolutize base = path.absolutize base :=
  normalize_join_normalize base path

private theorem leadsAlike_of_normalize_eq {left right : Path}
    (same : left.normalize = right.normalize) : left.LeadsAlike right := by
  intro base _
  rw [← absolutize_normalize left, same, absolutize_normalize]

/-- The path `.`, or the root and names, or some `..` and names, written plainly. -/
def IsCanonical (path : Path) : Prop :=
  path = ⟨"."⟩ ∨
    path.components ≠ [] ∧ IsNormal path.components ∧ path = ofComponents path.components

theorem isCanonical_normalize (path : Path) : path.normalize.IsCanonical := by
  by_cases nothing : normalizeComponents path.components = []
  · left
    rw [normalize, nothing]
  · right
    have kept : path.normalize.components = normalizeComponents path.components := by
      rw [components_normalize, if_neg nothing]
    rw [kept]
    refine ⟨nothing, isNormal_normalizeComponents path, ?_⟩
    rw [normalize]
    split
    · contradiction
    · rfl

/-- The normal form of a path is `.`, the root and names, or some `..` and names, and is its
own normal form.  A path may be normalised before it is joined to a base or after.  Two
paths have the same normal form exactly if they lead to the same place from every absolute
directory, so a path and its normal form lead to the same place. -/
theorem normalize_canonical (path other : Path) :
    path.normalize.IsCanonical ∧
    path.normalize.normalize = path.normalize ∧
    (∀ base : Path, (base.join path.normalize).normalize = (base.join path).normalize) ∧
    (path.normalize = other.normalize ↔
      ∀ base : Path, base.isAbsolute = true → path.absolutize base = other.absolutize base) ∧
    ∀ base : Path, path.normalize.absolutize base = path.absolutize base := by
  refine ⟨isCanonical_normalize path, normalize_normalize path,
    fun base => normalize_join_normalize base path, ?_, absolutize_normalize path⟩
  constructor
  · exact leadsAlike_of_normalize_eq
  · exact LeadsAlike.normalize_eq

/-- The paths `/x` and `../x` lead to the same place from `/w`, but not from everywhere. -/
theorem normalize_canonical_climbing :
    (Path.mk "a/../../x").absolutize ⟨"/w/v"⟩ = (Path.mk "./../y/../x//").absolutize ⟨"/w/v"⟩ ∧
    (Path.mk "/x").absolutize ⟨"/w"⟩ = (Path.mk "../x").absolutize ⟨"/w"⟩ ∧
    ¬∀ base : Path, base.isAbsolute = true →
      (Path.mk "/x").absolutize base = (Path.mk "../x").absolutize base := by
  obtain ⟨_, _, _, alike, _⟩ := normalize_canonical ⟨"a/../../x"⟩ ⟨"./../y/../x//"⟩
  obtain ⟨_, _, _, apart, _⟩ := normalize_canonical ⟨"/x"⟩ ⟨"../x"⟩
  refine ⟨alike.1 (by decide +kernel) _ (by decide +kernel), by decide +kernel, ?_⟩
  intro everywhere
  exact absurd (apart.2 everywhere) (by decide +kernel)

end ElmAtlas.Path
