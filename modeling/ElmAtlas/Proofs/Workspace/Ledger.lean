import ElmAtlas.Proofs.Workspace.Registry
import ElmAtlas.Workspace.Operations

/-!
# Steps of the ledger

What each step of the ledger does to the parts of a workspace: handing out a
ticket, publishing a change and finishing a replacement.  A replacement is
described by what it brings, so that discoveries and loaded states are finished
by one operation.
-/

namespace ElmAtlas

/-- What a replacement brings: the projects that a discovery found, which leaves
the settings alone, or the registry that a state describes. -/
inductive Replacement where
  | discovered (found : List Project)
  | restored (registry : Registry)
  deriving DecidableEq, Repr

namespace Replacement

def projects : Replacement → List Project
  | discovered found => found
  | restored registry => registry.projects

/-- The registry under a replacement, before changes are replayed. -/
def replace : Replacement → Registry → Registry
  | discovered found, registry => { registry with projects := found }
  | restored registry, _ => registry

@[simp] theorem replace_projects (replacement : Replacement) (registry : Registry) :
    (replacement.replace registry).projects = replacement.projects := by
  cases replacement <;> rfl

end Replacement

namespace Workspace

/-- Finishes a replacement that was requested under a ticket. -/
def finish (workspace : Workspace) (ticket : Ticket) : Replacement → Workspace
  | .discovered found => (workspace.discoverUnder ticket found).1
  | .restored registry => (workspace.loadUnder ticket registry).1

theorem finish_eq (workspace : Workspace) (ticket : Ticket) (replacement : Replacement) :
    workspace.finish ticket replacement =
      (workspace.commitReplacement ticket replacement.replace).1 := by
  cases replacement <;> rfl

/-- No replacement is pending and no change is journaled. -/
structure Idle (workspace : Workspace) : Prop where
  pending : workspace.pending = []
  journal : workspace.journal = []
  committed : workspace.committed ≤ workspace.requested

theorem withSettings_idle (settings : Settings) : (withSettings settings).Idle :=
  ⟨rfl, rfl, Nat.le_refl 0⟩

theorem isAwaited_iff {pending : List Ticket} {ticket : Ticket} :
    isAwaited pending ticket = true ↔ ∃ earlier ∈ pending, earlier < ticket := by
  simp [isAwaited]

theorem isAwaited_eq_of_min? {pending : List Ticket} {oldest : Ticket}
    (least : pending.min? = some oldest) (ticket : Ticket) :
    isAwaited pending ticket = decide (oldest < ticket) := by
  obtain ⟨member, below⟩ := List.min?_eq_some_iff.1 least
  rw [Bool.eq_iff_iff, isAwaited_iff, decide_eq_true_eq]
  constructor
  · rintro ⟨earlier, earlierMember, earlierBelow⟩
    exact Nat.lt_of_le_of_lt (below earlier earlierMember) earlierBelow
  · intro later
    exact ⟨oldest, member, later⟩

theorem isAwaited_append_of_le {pending : List Ticket} {ticket newer : Ticket}
    (older : ticket ≤ newer) :
    isAwaited (pending ++ [newer]) ticket = isAwaited pending ticket := by
  have notLater : ¬newer < ticket := Nat.not_lt_of_le older
  simp [isAwaited, notLater]

theorem isAwaited_of_filter {pending : List Ticket} {keeps : Ticket → Bool}
    {ticket : Ticket} (awaited : isAwaited (pending.filter keeps) ticket = true) :
    isAwaited pending ticket = true := by
  obtain ⟨earlier, member, below⟩ := isAwaited_iff.1 awaited
  exact isAwaited_iff.2 ⟨earlier, (List.mem_filter.1 member).1, below⟩

/-- The changes that a pending replacement has to replay. -/
def awaitedBy (pending : List Ticket) (changes : List (Ticket × Change)) :
    List (Ticket × Change) :=
  changes.filter fun entry => isAwaited pending entry.1

/-- What fewer replacements await is among what more of them await. -/
theorem awaitedBy_filter_awaitedBy (pending : List Ticket) (keeps : Ticket → Bool)
    (changes : List (Ticket × Change)) :
    awaitedBy (pending.filter keeps) (awaitedBy pending changes) =
      awaitedBy (pending.filter keeps) changes := by
  unfold awaitedBy
  rw [List.filter_filter]
  refine List.filter_congr fun entry _ => ?_
  rw [Bool.eq_iff_iff, Bool.and_eq_true]
  exact ⟨And.left, fun awaited => ⟨awaited, isAwaited_of_filter awaited⟩⟩

@[simp] theorem laterChanges_nil (ticket : Ticket) : laterChanges [] ticket = [] := by
  simp [laterChanges]

theorem mem_laterChanges {journal : List (Ticket × Change)} {ticket : Ticket}
    {entry : Ticket × Change} :
    entry ∈ laterChanges journal ticket ↔ entry ∈ journal ∧ ticket < entry.1 := by
  simp [laterChanges]

theorem laterChanges_perm (journal : List (Ticket × Change)) (ticket : Ticket) :
    (laterChanges journal ticket).Perm
      (journal.filter fun entry => ticket < entry.1) :=
  List.mergeSort_perm _ _

/-- A pending replacement finds all later changes among those that are awaited. -/
theorem laterChanges_awaitedBy {pending : List Ticket} {ticket : Ticket}
    (waiting : ticket ∈ pending) (changes : List (Ticket × Change)) :
    laterChanges (awaitedBy pending changes) ticket = laterChanges changes ticket := by
  unfold laterChanges awaitedBy
  rw [List.filter_filter]
  congr 1
  refine List.filter_congr fun entry _ => ?_
  rw [Bool.eq_iff_iff, Bool.and_eq_true]
  refine ⟨And.left, fun later => ⟨later, ?_⟩⟩
  exact isAwaited_iff.2 ⟨ticket, waiting, of_decide_eq_true later⟩

/-- Later changes with different tickets are in strictly ascending order. -/
theorem laterChanges_pairwise {journal : List (Ticket × Change)} (ticket : Ticket)
    (distinct : (journal.map Prod.fst).Nodup) :
    (laterChanges journal ticket).Pairwise fun left right => left.1 < right.1 := by
  have sorted : (laterChanges journal ticket).Pairwise
      fun left right => decide (left.1 ≤ right.1) = true := by
    apply List.pairwise_mergeSort
    · intro first second third firstSecond secondThird
      simp only [decide_eq_true_eq] at firstSecond secondThird ⊢
      exact Nat.le_trans firstSecond secondThird
    · intro first second
      simpa using Nat.le_total first.1 second.1
  have keptDistinct : ((journal.filter fun entry => ticket < entry.1).map Prod.fst).Nodup :=
    (List.Sublist.map Prod.fst List.filter_sublist).nodup distinct
  have laterDistinct : ((laterChanges journal ticket).map Prod.fst).Nodup :=
    ((laterChanges_perm journal ticket).map Prod.fst).nodup_iff.2 keptDistinct
  have different : (laterChanges journal ticket).Pairwise
      fun left right => left.1 ≠ right.1 := List.pairwise_map.1 laterDistinct
  refine List.Pairwise.imp ?_ (List.pairwise_and_iff.2 ⟨sorted, different⟩)
  intro left right ordered
  exact Nat.lt_of_le_of_ne (of_decide_eq_true ordered.1) ordered.2

theorem laterChanges_eq_filter {journal : List (Ticket × Change)} (ticket : Ticket)
    (ascending : journal.Pairwise fun left right => left.1 < right.1) :
    laterChanges journal ticket = journal.filter fun entry => ticket < entry.1 := by
  apply List.mergeSort_of_pairwise
  refine List.Pairwise.imp ?_ (ascending.filter _)
  intro left right below
  exact decide_eq_true (Nat.le_of_lt below)

theorem of_mem_commitChange {workspace : Workspace} {ticket : Ticket} {change : Change}
    {entry : Ticket × Change}
    (member : entry ∈ (workspace.commitChange ticket change).journal) :
    entry ∈ workspace.journal ∨ entry = (ticket, change) := by
  unfold commitChange at member
  simp only at member
  split at member
  · rcases List.mem_append.1 member with old | new
    · exact .inl old
    · exact .inr (List.mem_singleton.1 new)
  · exact .inl member

theorem commitReplacement_snd (workspace : Workspace) (ticket : Ticket)
    (replace : Registry → Registry) :
    (workspace.commitReplacement ticket replace).2 = workspace.isFresh ticket := by
  rw [commitReplacement]
  split
  · rename_i fresh
    exact fresh.symm
  · rename_i stale
    exact (Bool.eq_false_iff.2 stale).symm

section Finish

variable (workspace : Workspace) (ticket : Ticket) (replacement : Replacement)

@[simp] theorem finish_requested :
    (workspace.finish ticket replacement).requested = workspace.requested := by
  rw [finish_eq, commitReplacement]
  split <;> rfl

@[simp] theorem finish_pending :
    (workspace.finish ticket replacement).pending =
      workspace.pending.filter (· != ticket) := by
  rw [finish_eq, commitReplacement]
  split <;> rfl

@[simp] theorem finish_journal :
    (workspace.finish ticket replacement).journal =
      workspace.journal.filter fun entry =>
        isAwaited (workspace.pending.filter (· != ticket)) entry.1 := by
  rw [finish_eq, commitReplacement]
  split <;> rfl

theorem finish_committed :
    (workspace.finish ticket replacement).committed =
      if workspace.isFresh ticket then ticket else workspace.committed := by
  rw [finish_eq, commitReplacement]
  split <;> rfl

theorem finish_registry :
    (workspace.finish ticket replacement).registry =
      if workspace.isFresh ticket then
        (replacement.replace workspace.registry).replay (laterChanges workspace.journal ticket)
      else workspace.registry := by
  rw [finish_eq, commitReplacement]
  split <;> rfl

theorem finish_registry_of_stale (stale : workspace.isFresh ticket = false) :
    (workspace.finish ticket replacement).registry = workspace.registry := by
  rw [finish_registry, if_neg (by simp [stale])]

end Finish

end Workspace

end ElmAtlas
