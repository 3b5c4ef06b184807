import ElmAtlas.Proofs.Path.Place
import ElmAtlas.Workspace.Ledger

/-!
# Changes of a registry

A change is about one manifest: it takes the project of that manifest out of the
registry and, when it is an attachment, puts a project at the end.  Everything
else stays where it is.  The lemmas below say this for one change and for a list
of changes that is replayed, first about the projects and then about what the
registry holds for a manifest.
-/

namespace ElmAtlas

namespace Change

def concerns (change : Change) (manifestPath : Path) : Bool :=
  manifestPath.sameAs change.manifestPath

/-- What a change leaves for its manifest. -/
def outcome : Change → Option Project
  | attached project => some project
  | detached _ => none

theorem concerns_congr {change : Change} {left right : Path}
    (same : left.sameAs right = true) : change.concerns left = change.concerns right :=
  Path.sameAs_congr_left same change.manifestPath

theorem concerns_of_mem_outcome {change : Change} {project : Project}
    (member : project ∈ change.outcome) : change.concerns project.manifestPath = true := by
  cases change with
  | attached attachedProject =>
      obtain rfl : attachedProject = project := by simpa [outcome] using member
      exact Path.sameAs_iff.2 rfl
  | detached path => simp [outcome] at member

end Change

def touches (entries : List (Ticket × Change)) (manifestPath : Path) : Bool :=
  entries.any fun entry => entry.2.concerns manifestPath

@[simp] theorem touches_cons (entry : Ticket × Change) (entries : List (Ticket × Change))
    (manifestPath : Path) :
    touches (entry :: entries) manifestPath =
      (entry.2.concerns manifestPath || touches entries manifestPath) := rfl

theorem touches_eq_true {entries : List (Ticket × Change)} {manifestPath : Path} :
    touches entries manifestPath = true ↔
      ∃ entry ∈ entries, entry.2.concerns manifestPath = true := by
  simp only [touches, List.any_eq_true]

namespace Registry

/-- Applies a list of changes, the first one first. -/
def replay (registry : Registry) (entries : List (Ticket × Change)) : Registry :=
  entries.foldl (fun registry entry => registry.apply entry.2) registry

@[simp] theorem replay_nil (registry : Registry) : registry.replay [] = registry := rfl

theorem replay_cons (registry : Registry) (entry : Ticket × Change)
    (entries : List (Ticket × Change)) :
    registry.replay (entry :: entries) = (registry.apply entry.2).replay entries := rfl

theorem replay_append (registry : Registry) (left right : List (Ticket × Change)) :
    registry.replay (left ++ right) = (registry.replay left).replay right :=
  List.foldl_append

theorem replay_concat (registry : Registry) (entries : List (Ticket × Change))
    (entry : Ticket × Change) :
    registry.replay (entries ++ [entry]) = (registry.replay entries).apply entry.2 :=
  replay_append registry entries [entry]

theorem apply_projects (registry : Registry) (change : Change) :
    (registry.apply change).projects =
      registry.projects.filter (fun project => !change.concerns project.manifestPath) ++
        change.outcome.toList := by
  cases change with
  | attached project => rfl
  | detached path => exact (List.append_nil _).symm

theorem of_mem_apply {registry : Registry} {change : Change} {project : Project}
    (member : project ∈ (registry.apply change).projects) :
    project ∈ registry.projects ∨ project ∈ change.outcome := by
  rw [apply_projects] at member
  rcases List.mem_append.1 member with old | new
  · exact .inl (List.mem_filter.1 old).1
  · exact .inr (by simpa using new)

theorem apply_projects_congr {left right : Registry} (same : left.projects = right.projects)
    (change : Change) : (left.apply change).projects = (right.apply change).projects := by
  rw [apply_projects, apply_projects, same]

theorem replay_projects_congr {left right : Registry}
    (same : left.projects = right.projects) (entries : List (Ticket × Change)) :
    (left.replay entries).projects = (right.replay entries).projects := by
  induction entries generalizing left right with
  | nil => exact same
  | cons entry entries induction => exact induction (apply_projects_congr same entry.2)

/-- Replayed changes keep the projects that no change is about, in order, and
leave behind them what they leave of an empty registry. -/
theorem replay_projects (registry : Registry) (entries : List (Ticket × Change)) :
    (registry.replay entries).projects =
      registry.projects.filter (fun project => !touches entries project.manifestPath) ++
        (Registry.empty.replay entries).projects := by
  induction entries generalizing registry with
  | nil =>
      rw [replay_nil, replay_nil, List.filter_eq_self.2 (by simp [touches])]
      exact (List.append_nil _).symm
  | cons entry entries induction =>
      -- The first change has acted on both sides before the others do.
      rw [replay_cons, replay_cons, induction (registry.apply entry.2),
        induction (Registry.empty.apply entry.2), apply_projects, apply_projects]
      simp [Registry.empty, List.filter_append, List.filter_filter, touches_cons,
        Bool.and_comm]

theorem mem_apply_of_subset {left right : Registry}
    (subset : ∀ project ∈ left.projects, project ∈ right.projects) (change : Change) :
    ∀ project ∈ (left.apply change).projects, project ∈ (right.apply change).projects := by
  intro project member
  rw [apply_projects] at member ⊢
  rcases List.mem_append.1 member with old | new
  · obtain ⟨listed, kept⟩ := List.mem_filter.1 old
    exact List.mem_append_left _ (List.mem_filter.2 ⟨subset project listed, kept⟩)
  · exact List.mem_append_right _ new

theorem mem_replay_append (registry : Registry) {left right : List (Ticket × Change)}
    {project : Project} (member : project ∈ (Registry.empty.replay right).projects) :
    project ∈ (registry.replay (left ++ right)).projects := by
  rw [replay_append, replay_projects]
  exact List.mem_append_right _ member

/-- A detachment of a manifest that is not attached changes nothing. -/
theorem remove_of_not_attached {registry : Registry} {manifestPath : Path}
    (absent : registry.isAttached manifestPath = false) :
    registry.remove manifestPath = registry := by
  have unlisted : ∀ project ∈ registry.projects,
      (!project.manifestPath.sameAs manifestPath) = true := by
    intro project member
    simpa using List.any_eq_false.1 absent project member
  unfold remove
  rw [List.filter_eq_self.2 unlisted]

/-- A project with a new manifest is put at the end. -/
theorem insert_of_different {kept : List Project} {project : Project}
    (different : ∀ other ∈ kept, other.manifestPath.sameAs project.manifestPath = false)
    (settings : Settings) :
    insert ⟨kept, settings⟩ project = ⟨kept ++ [project], settings⟩ := by
  rw [insert, remove,
    List.filter_eq_self.2 fun other member => by simp [different other member]]

theorem apply_settings (registry : Registry) (change : Change) :
    (registry.apply change).settings = registry.settings := by
  cases change <;> rfl

@[simp] theorem replay_settings (registry : Registry) (entries : List (Ticket × Change)) :
    (registry.replay entries).settings = registry.settings := by
  induction entries generalizing registry with
  | nil => rfl
  | cons entry entries induction =>
      rw [replay_cons, induction, apply_settings]

theorem find?_apply (registry : Registry) (change : Change) (manifestPath : Path) :
    (registry.apply change).find? manifestPath =
      if change.concerns manifestPath then change.outcome
      else registry.find? manifestPath := by
  unfold find?
  rw [apply_projects, List.find?_append, List.find?_filter]
  split
  · rename_i concerned
    -- The filter has dropped every project of this manifest.
    have dropped : registry.projects.find? (fun project =>
        (!change.concerns project.manifestPath) = true ∧
          project.manifestPath.sameAs manifestPath = true) = none := by
      rw [List.find?_eq_none]
      intro project _ kept
      simp only [decide_eq_true_eq, Bool.not_eq_true'] at kept
      rw [Change.concerns_congr kept.2] at kept
      exact Bool.false_ne_true (kept.1.symm.trans concerned)
    rw [dropped, Option.none_or]
    cases change with
    | attached project =>
        have same : project.manifestPath.sameAs manifestPath = true := by
          rw [Path.sameAs_comm]
          exact concerned
        simp [Change.outcome, same]
    | detached path => rfl
  · rename_i unconcerned
    have kept : registry.projects.find? (fun project =>
        (!change.concerns project.manifestPath) = true ∧
          project.manifestPath.sameAs manifestPath = true) =
        registry.projects.find? (fun project =>
          project.manifestPath.sameAs manifestPath) := by
      congr 1
      funext project
      by_cases same : project.manifestPath.sameAs manifestPath = true
      · simp [same, Change.concerns_congr same, unconcerned]
      · simp [same]
    have other : change.outcome.toList.find? (fun project =>
        project.manifestPath.sameAs manifestPath) = none := by
      rw [List.find?_eq_none]
      intro project member same
      have concerned := Change.concerns_of_mem_outcome (by simpa using member)
      rw [Change.concerns_congr same] at concerned
      exact unconcerned concerned
    rw [kept, other, Option.or_none]

theorem find?_replay_of_untouched {entries : List (Ticket × Change)} {manifestPath : Path}
    (untouched : touches entries manifestPath = false) (registry : Registry) :
    (registry.replay entries).find? manifestPath = registry.find? manifestPath := by
  induction entries generalizing registry with
  | nil => rfl
  | cons entry entries induction =>
      rw [touches_cons, Bool.or_eq_false_iff] at untouched
      rw [replay_cons, induction untouched.2, find?_apply, if_neg (by simp [untouched.1])]

theorem find?_replay_of_last {before after : List (Ticket × Change)}
    {entry : Ticket × Change} {manifestPath : Path}
    (concerned : entry.2.concerns manifestPath = true)
    (untouched : touches after manifestPath = false) (registry : Registry) :
    (registry.replay (before ++ entry :: after)).find? manifestPath = entry.2.outcome := by
  rw [replay_append, replay_cons, find?_replay_of_untouched untouched, find?_apply,
    if_pos concerned]

/-- Of changes in the order of their tickets, the one with the largest ticket
decides what the registry holds for its manifest. -/
theorem find?_replay_of_newest {entries : List (Ticket × Change)}
    {newest : Ticket × Change} {manifestPath : Path}
    (ascending : entries.Pairwise fun left right => left.1 < right.1)
    (member : newest ∈ entries) (concerned : newest.2.concerns manifestPath = true)
    (latest : ∀ entry ∈ entries, entry.2.concerns manifestPath = true →
      entry.1 ≤ newest.1)
    (registry : Registry) :
    (registry.replay entries).find? manifestPath = newest.2.outcome := by
  obtain ⟨before, after, rfl⟩ := List.append_of_mem member
  refine find?_replay_of_last concerned ?_ registry
  rw [← Bool.not_eq_true, touches_eq_true]
  rintro ⟨entry, entryMember, entryConcerned⟩
  have later : newest.1 < entry.1 :=
    (List.pairwise_cons.1 (List.pairwise_append.1 ascending).2.1).1 entry entryMember
  have bounded : entry.1 ≤ newest.1 :=
    latest entry (by simp [entryMember]) entryConcerned
  exact absurd bounded (Nat.not_le_of_gt later)

end Registry

end ElmAtlas
