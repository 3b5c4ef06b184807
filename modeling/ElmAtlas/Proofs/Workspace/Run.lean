import ElmAtlas.Proofs.Workspace.Ledger

/-!
# Runs of a workspace

A run is what happens to one workspace: tickets are taken, changes are published
and replacements finish, in any order that the tickets allow.  Between taking a
ticket and using it anything else may happen, and a ticket may never be used.
The run records which changes were committed and which replacements finished, so
that a statement about a workspace can speak about everything before it.
-/

namespace ElmAtlas

namespace Registry

/-- An attachment is always published, a detachment only if its manifest is
attached. -/
def accepts (registry : Registry) : Change → Bool
  | .attached _ => true
  | .detached path => registry.isAttached path

end Registry

namespace Workspace

inductive Event where
  | requestChange
  | requestReplacement
  | commitChange (ticket : Ticket) (change : Change)
  | finishReplacement (ticket : Ticket) (replacement : Replacement)
  | updateSettings (update : Settings → Settings)

structure Completion where
  ticket : Ticket
  replacement : Replacement
  /-- Whether it took effect; otherwise a later one had come first. -/
  effective : Bool
  deriving DecidableEq, Repr

structure Run where
  workspace : Workspace
  /-- The tickets of changes that have not been committed. -/
  unused : List Ticket
  /-- The committed changes, in the order of their commits. -/
  changes : List (Ticket × Change)
  asked : List Ticket
  completions : List Completion

namespace Run

def start (workspace : Workspace) : Run where
  workspace := workspace
  unused := []
  changes := []
  asked := []
  completions := []

def effective (run : Run) : List Completion :=
  run.completions.filter (·.effective)

def after (run : Run) : Event → Run
  | .requestChange =>
      { run with
        workspace := run.workspace.requestChange.1
        unused := run.unused ++ [run.workspace.requestChange.2] }
  | .requestReplacement =>
      { run with
        workspace := run.workspace.requestReplacement.1
        asked := run.asked ++ [run.workspace.requestReplacement.2] }
  | .commitChange ticket change =>
      { run with
        workspace := run.workspace.commitChange ticket change
        unused := run.unused.filter (· != ticket)
        changes := run.changes ++ [(ticket, change)] }
  | .finishReplacement ticket replacement =>
      { run with
        workspace := run.workspace.finish ticket replacement
        completions := run.completions ++
          [⟨ticket, replacement,
            (run.workspace.commitReplacement ticket replacement.replace).2⟩] }
  | .updateSettings update =>
      { run with workspace := run.workspace.updateSettings update }

/-- Tickets are used once, by what they were taken for. -/
def Admits (run : Run) : Event → Prop
  | .commitChange ticket change =>
      ticket ∈ run.unused ∧ run.workspace.registry.accepts change = true
  | .finishReplacement ticket _ => ticket ∈ run.workspace.pending
  | .requestChange | .requestReplacement | .updateSettings _ => True

/-- The runs that start from an idle workspace, such as a new one. -/
inductive Reachable (initial : Workspace) : Run → Prop where
  | start (idle : initial.Idle) : Reachable initial (Run.start initial)
  | step {run : Run} {event : Event} (reached : Reachable initial run)
      (admitted : run.Admits event) : Reachable initial (run.after event)

/-- A schedule: events that happen one after another. -/
def follow (run : Run) (events : List Event) : Run :=
  events.foldl after run

def AdmitsAll : Run → List Event → Prop
  | _, [] => True
  | run, event :: events => run.Admits event ∧ (run.after event).AdmitsAll events

theorem Reachable.follow {initial : Workspace} {run : Run}
    (reached : Reachable initial run) {events : List Event}
    (admitted : run.AdmitsAll events) : Reachable initial (run.follow events) := by
  induction events generalizing run with
  | nil => exact reached
  | cons event events induction => exact induction (reached.step admitted.1) admitted.2

instance decidableAdmits (run : Run) : (event : Event) → Decidable (run.Admits event)
  | .commitChange ticket change =>
      inferInstanceAs (Decidable
        (ticket ∈ run.unused ∧ run.workspace.registry.accepts change = true))
  | .finishReplacement ticket _ => inferInstanceAs (Decidable (ticket ∈ run.workspace.pending))
  | .requestChange | .requestReplacement | .updateSettings _ => isTrue trivial

instance decidableAdmitsAll : (run : Run) → (events : List Event) →
    Decidable (run.AdmitsAll events)
  | _, [] => isTrue trivial
  | run, event :: events =>
      have := decidableAdmitsAll (run.after event) events
      inferInstanceAs (Decidable (run.Admits event ∧ (run.after event).AdmitsAll events))

/-- An application of which no more is known than where its manifest is. -/
def sampleProject (manifestPath : String) : Project where
  manifestPath := ⟨manifestPath⟩
  schema := .current
  kind := .application ⟨0, 19, 1⟩
  sourceDirectories := [⟨"src"⟩]
  dependencies := .empty
  testDependencies := .empty
  testsRelative := Sidecar.defaultTestDirectory

/-- A change ticket is used at most once. -/
structure SingleUse (run : Run) : Prop where
  unusedBound : ∀ ticket ∈ run.unused, ticket ≤ run.workspace.requested
  changeBound : ∀ entry ∈ run.changes, entry.1 ≤ run.workspace.requested
  usedUp : ∀ entry ∈ run.changes, entry.1 ∉ run.unused
  distinct : (run.changes.map Prod.fst).Nodup

theorem SingleUse.mono {run next : Run} (single : run.SingleUse)
    (unused : next.unused = run.unused) (changes : next.changes = run.changes)
    (requested : run.workspace.requested ≤ next.workspace.requested) : next.SingleUse := by
  refine ⟨?_, ?_, ?_, ?_⟩
  · rw [unused]
    exact fun ticket member => Nat.le_trans (single.unusedBound ticket member) requested
  · rw [changes]
    exact fun entry member => Nat.le_trans (single.changeBound entry member) requested
  · rw [unused, changes]
    exact single.usedUp
  · rw [changes]
    exact single.distinct

theorem SingleUse.afterRequest {run : Run} (single : run.SingleUse) :
    (run.after .requestChange).SingleUse := by
  refine ⟨?_, ?_, ?_, single.distinct⟩
  · intro ticket member
    rcases List.mem_append.1 member with old | new
    · exact Nat.le_succ_of_le (single.unusedBound ticket old)
    · exact Nat.le_of_eq (List.mem_singleton.1 new)
  · intro entry member
    exact Nat.le_succ_of_le (single.changeBound entry member)
  · intro entry member used
    rcases List.mem_append.1 used with old | new
    · exact single.usedUp entry member old
    · have bound := single.changeBound entry member
      rw [List.mem_singleton.1 new] at bound
      exact Nat.not_succ_le_self _ bound

theorem SingleUse.afterCommit {run : Run} (single : run.SingleUse) {ticket : Ticket}
    (unused : ticket ∈ run.unused) (change : Change) :
    (run.after (.commitChange ticket change)).SingleUse := by
  refine ⟨?_, ?_, ?_, ?_⟩
  · intro other member
    exact single.unusedBound other (List.mem_filter.1 member).1
  · intro entry member
    rcases List.mem_append.1 member with old | new
    · exact single.changeBound entry old
    · obtain rfl := List.mem_singleton.1 new
      exact single.unusedBound ticket unused
  · intro entry member still
    obtain ⟨oldUnused, different⟩ := List.mem_filter.1 still
    rcases List.mem_append.1 member with old | new
    · exact single.usedUp entry old oldUnused
    · obtain rfl := List.mem_singleton.1 new
      simp at different
  · have unseen : ticket ∉ run.changes.map Prod.fst := by
      intro seen
      obtain ⟨entry, member, rfl⟩ := List.mem_map.1 seen
      exact single.usedUp entry member unused
    have appended : ((run.changes ++ [(ticket, change)]).map Prod.fst).Nodup := by
      rw [List.map_append, List.nodup_append]
      refine ⟨single.distinct, by simp, ?_⟩
      intro left leftMember right rightMember same
      obtain rfl : right = ticket := by simpa using rightMember
      exact unseen (same ▸ leftMember)
    exact appended

theorem Reachable.singleUse {initial : Workspace} {run : Run}
    (reached : Reachable initial run) : run.SingleUse := by
  induction reached with
  | start idle =>
      refine ⟨?_, ?_, ?_, List.Pairwise.nil⟩
      all_goals exact fun _ member => (List.not_mem_nil member).elim
  | @step run event reached admitted single =>
      cases event with
      | requestChange => exact single.afterRequest
      | requestReplacement => exact single.mono rfl rfl (Nat.le_succ _)
      | commitChange ticket change => exact single.afterCommit admitted.1 change
      | finishReplacement ticket replacement =>
          exact single.mono rfl rfl (Nat.le_of_eq (finish_requested _ _ _).symm)
      | updateSettings update => exact single.mono rfl rfl (Nat.le_refl _)

end Run

end Workspace

end ElmAtlas
