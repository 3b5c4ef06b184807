import ElmAtlas.Proofs.Workspace.AttachedManifests
import ElmAtlas.Proofs.Workspace.Supersession

/-!
# Replacements that cannot be started

The ticket of a replacement is taken before its task is started.  If the host refuses to
start the task, nobody is left who could finish the replacement, and the ticket is pending
for good.  From outside this cannot be told: the registry and all answers are those of a
workspace that was never asked.  The journal can tell, because every later change is
written into it and none is ever taken out.  Had the workspace given the ticket back, it
would have gone on like one that was never asked, and it still would if it did so now.
-/

namespace ElmAtlas.Workspace

/-- A discovery was asked for, or the loading of a state, and could not be started. -/
inductive RefusesSpawn (workspace next : Workspace) : Prop where
  | discovery {refusal : Option String} {found : List Project} {failure : Failure}
      (failed : workspace.spawnDiscover refusal found = (next, .error failure))
  | loading {refusal : Option String} {restored : Registry} {failure : Failure}
      (failed : workspace.spawnLoadState refusal restored = (next, .error failure))

private theorem RefusesSpawn.eq_requestReplacement {workspace next : Workspace}
    (refused : workspace.RefusesSpawn next) : workspace.requestReplacement.1 = next := by
  cases refused with
  | discovery failed => exact congrArg Prod.fst failed
  | loading failed => exact congrArg Prod.fst failed

private theorem eq_of_fields {left right : Workspace} (registry : left.registry = right.registry)
    (requested : left.requested = right.requested) (pending : left.pending = right.pending)
    (committed : left.committed = right.committed) (journal : left.journal = right.journal) :
    left = right := by
  cases left
  cases right
  simp_all

section GivenBack

variable {workspace : Workspace} {lost ticket : Ticket}

theorem finishReplacement_journal :
    (workspace.finishReplacement lost).journal =
      awaitedBy (workspace.pending.filter (· != lost)) workspace.journal :=
  rfl

theorem commitChange_journal (change : Change) :
    (workspace.commitChange ticket change).journal =
      workspace.journal ++ awaitedBy workspace.pending [(ticket, change)] := by
  rw [commitChange, awaitedBy]
  split
  · rename_i awaited
    simp [awaited]
  · rename_i free
    simp [free]

private theorem requestReplacement_finishReplacement (handedOut : lost ≤ workspace.requested)
    (bounded : ∀ entry ∈ workspace.journal, entry.1 ≤ workspace.requested) :
    workspace.requestReplacement.1.finishReplacement lost =
      (workspace.finishReplacement lost).requestReplacement.1 := by
  have different : workspace.requested + 1 ≠ lost :=
    Nat.ne_of_gt (Nat.lt_succ_of_le handedOut)
  have pending : (workspace.pending ++ [workspace.requested + 1]).filter (· != lost) =
      workspace.pending.filter (· != lost) ++ [workspace.requested + 1] := by
    simp [List.filter_append, different]
  -- What is journaled so far is older than the new ticket, which awaits none of it.
  have journal : awaitedBy (workspace.pending.filter (· != lost) ++ [workspace.requested + 1])
      workspace.journal = awaitedBy (workspace.pending.filter (· != lost)) workspace.journal :=
    List.filter_congr fun entry listed =>
      isAwaited_append_of_le (Nat.le_succ_of_le (bounded entry listed))
  refine eq_of_fields rfl rfl pending rfl ?_
  rw [finishReplacement_journal]
  exact (congrArg (awaitedBy · workspace.journal) pending).trans journal

private theorem commitChange_finishReplacement (change : Change) :
    (workspace.commitChange ticket change).finishReplacement lost =
      (workspace.finishReplacement lost).commitChange ticket change := by
  refine eq_of_fields rfl rfl rfl rfl ?_
  rw [finishReplacement_journal, commitChange_journal, commitChange_journal,
    finishReplacement_journal]
  exact (List.filter_append _ _).trans
    (congrArg _ (awaitedBy_filter_awaitedBy workspace.pending _ _))

/-- A pending replacement finds what it has to replay in the shorter journal, too. -/
private theorem laterChanges_finishReplacement (pending : ticket ∈ workspace.pending)
    (different : ticket ≠ lost) :
    laterChanges (workspace.finishReplacement lost).journal ticket =
      laterChanges workspace.journal ticket := by
  have still : ticket ∈ workspace.pending.filter (· != lost) :=
    List.mem_filter.2 ⟨pending, by simpa using different⟩
  rw [finishReplacement_journal, laterChanges_awaitedBy still]

private theorem finish_finishReplacement (pending : ticket ∈ workspace.pending)
    (different : ticket ≠ lost) (replacement : Replacement) :
    (workspace.finish ticket replacement).finishReplacement lost =
      (workspace.finishReplacement lost).finish ticket replacement := by
  have fewer : (workspace.pending.filter (· != ticket)).filter (· != lost) =
      (workspace.pending.filter (· != lost)).filter (· != ticket) := List.filter_comm _ _ _
  refine eq_of_fields ?_ ?_ ?_ ?_ ?_
  · rw [finish_registry, laterChanges_finishReplacement pending different]
    exact finish_registry _ _ _
  · rw [finish_requested]
    exact finish_requested _ _ _
  · rw [finish_pending]
    exact (congrArg _ (finish_pending _ _ _)).trans fewer
  · rw [finish_committed]
    exact finish_committed _ _ _
  · calc
      ((workspace.finish ticket replacement).finishReplacement lost).journal =
          awaitedBy ((workspace.pending.filter (· != ticket)).filter (· != lost))
            (awaitedBy (workspace.pending.filter (· != ticket)) workspace.journal) := by
        rw [finishReplacement_journal, finish_pending, finish_journal]
        rfl
      _ = awaitedBy ((workspace.pending.filter (· != lost)).filter (· != ticket))
            (awaitedBy (workspace.pending.filter (· != lost)) workspace.journal) := by
        rw [awaitedBy_filter_awaitedBy, awaitedBy_filter_awaitedBy, fewer]
      _ = ((workspace.finishReplacement lost).finish ticket replacement).journal :=
        (finish_journal (workspace.finishReplacement lost) ticket replacement).symm

end GivenBack

namespace Run

variable {initial : Workspace} {run : Run}

theorem Reachable.pending_le (reached : Reachable initial run) {ticket : Ticket}
    (pending : ticket ∈ run.workspace.pending) : ticket ≤ run.workspace.requested :=
  (reached.watermarked.askedBound ticket (reached.watermarked.pendingAsked ticket pending)).2

theorem Reachable.journal_le (reached : Reachable initial run) {entry : Ticket × Change}
    (listed : entry ∈ run.workspace.journal) : entry.1 ≤ run.workspace.requested := by
  have journaled : run.workspace.journal = _ := reached.journaled
  rw [journaled] at listed
  exact reached.singleUse.changeBound entry (List.mem_filter.1 listed).1

/-- A number is used up, but nothing was asked for. -/
def withoutRequest (run : Run) : Run :=
  { run with workspace := run.workspace.requestChange.1 }

/-- The supposed run is what the real one would be if the lost ticket were given back. -/
structure Mirrors (lost : Ticket) (real supposed : Run) : Prop where
  workspace : supposed.workspace = real.workspace.finishReplacement lost
  unused : supposed.unused = real.unused
  changes : supposed.changes = real.changes
  completions : supposed.completions = real.completions
  waiting : lost ∈ real.workspace.pending

theorem Reachable.mirrors (reached : Reachable initial run) :
    Mirrors (run.workspace.requested + 1) (run.after .requestReplacement)
      run.withoutRequest := by
  have older : ∀ ticket ∈ run.workspace.pending, ticket ≠ run.workspace.requested + 1 := by
    intro ticket pending
    exact Nat.ne_of_lt (Nat.lt_succ_of_le (reached.pending_le pending))
  have pending : (run.workspace.pending ++ [run.workspace.requested + 1]).filter
      (· != run.workspace.requested + 1) = run.workspace.pending := by
    rw [List.filter_append, List.filter_eq_self.2]
    · simp
    · intro ticket member
      simpa using older ticket member
  have journal : awaitedBy run.workspace.pending run.workspace.journal =
      run.workspace.journal := by
    have journaled : run.workspace.journal = _ := reached.journaled
    rw [journaled]
    exact List.filter_filter.trans (by simp)
  have waiting : run.workspace.requested + 1 ∈
      run.workspace.pending ++ [run.workspace.requested + 1] := by simp
  refine ⟨eq_of_fields rfl rfl pending.symm rfl ?_, rfl, rfl, rfl, waiting⟩
  exact journal.symm.trans (congrArg (awaitedBy · run.workspace.journal) pending.symm)

namespace Mirrors

variable {lost : Ticket} {real supposed : Run} {event : Event}

theorem admits (mirrors : Mirrors lost real supposed) (admitted : real.Admits event)
    (spared : ∀ replacement, event ≠ .finishReplacement lost replacement) :
    supposed.Admits event := by
  cases event with
  | requestChange => trivial
  | requestReplacement => trivial
  | commitChange ticket change =>
      refine ⟨mirrors.unused ▸ admitted.1, ?_⟩
      rw [mirrors.workspace]
      exact admitted.2
  | finishReplacement ticket replacement =>
      have different : ticket ≠ lost := fun same => spared replacement (same ▸ rfl)
      rw [Admits, mirrors.workspace]
      exact List.mem_filter.2 ⟨admitted, by simpa using different⟩
  | updateSettings update => trivial

/-- Both runs take the same step, and giving the ticket back leads from one to the other
still. -/
theorem after (mirrors : Mirrors lost real supposed) (reached : Reachable initial real)
    (admitted : real.Admits event)
    (spared : ∀ replacement, event ≠ .finishReplacement lost replacement) :
    Mirrors lost (real.after event) (supposed.after event) := by
  obtain ⟨workspace, unused, changes, completions, waiting⟩ := mirrors
  cases event with
  | requestChange =>
      refine ⟨?_, ?_, changes, completions, waiting⟩
      all_goals simp only [Run.after, workspace, unused]
      all_goals rfl
  | requestReplacement =>
      refine ⟨?_, unused, changes, completions, List.mem_append_left _ waiting⟩
      have bound : ∀ entry ∈ real.workspace.journal, entry.1 ≤ real.workspace.requested :=
        fun _ listed => reached.journal_le listed
      simp only [Run.after, workspace]
      exact (requestReplacement_finishReplacement (reached.pending_le waiting) bound).symm
  | commitChange ticket change =>
      refine ⟨?_, ?_, ?_, completions, waiting⟩
      all_goals simp only [Run.after, workspace, unused, changes]
      exact (commitChange_finishReplacement change).symm
  | finishReplacement ticket replacement =>
      -- Another ticket than the lost one is finished, which therefore goes on waiting.
      have different : ticket ≠ lost := fun same => spared replacement (same ▸ rfl)
      have still : lost ∈ (real.workspace.finish ticket replacement).pending := by
        rw [finish_pending]
        exact List.mem_filter.2 ⟨waiting, by simpa using different.symm⟩
      refine ⟨?_, unused, changes, ?_, still⟩
      all_goals simp only [Run.after, workspace, completions, commitReplacement_snd]
      · exact (finish_finishReplacement admitted different replacement).symm
      · rfl
  | updateSettings update =>
      refine ⟨?_, unused, changes, completions, waiting⟩
      simp only [Run.after, workspace]
      rfl

theorem follow {events : List Event} (mirrors : Mirrors lost real supposed)
    (reached : Reachable initial real) (admitted : real.AdmitsAll events)
    (spared : ∀ replacement, .finishReplacement lost replacement ∉ events) :
    supposed.AdmitsAll events ∧ Mirrors lost (real.follow events) (supposed.follow events) := by
  induction events generalizing real supposed with
  | nil => exact ⟨trivial, mirrors⟩
  | cons event events induction =>
      have first : ∀ replacement, event ≠ .finishReplacement lost replacement := by
        rintro replacement rfl
        exact spared replacement List.mem_cons_self
      have rest : ∀ replacement, .finishReplacement lost replacement ∉ events :=
        fun replacement member => spared replacement (List.mem_cons_of_mem _ member)
      obtain ⟨admittedRest, mirrorsRest⟩ :=
        induction (mirrors.after reached admitted.1 first) (reached.step admitted.1)
          admitted.2 rest
      exact ⟨⟨mirrors.admits admitted.1 first, admittedRest⟩, mirrorsRest⟩

/-- Without the lost ticket only what the others await is written down. -/
theorem journal (mirrors : Mirrors lost real supposed) (reached : Reachable initial real) :
    supposed.workspace.journal = awaitedBy supposed.workspace.pending real.changes := by
  have journaled : real.workspace.journal = awaitedBy real.workspace.pending real.changes :=
    reached.journaled
  rw [mirrors.workspace, finishReplacement_journal, journaled]
  exact awaitedBy_filter_awaitedBy _ _ _

theorem mem_journal (mirrors : Mirrors lost real supposed) (reached : Reachable initial real)
    {entry : Ticket × Change} (committed : entry ∈ real.changes) (later : lost < entry.1) :
    entry ∈ real.workspace.journal := by
  have journaled : real.workspace.journal = _ := reached.journaled
  rw [journaled]
  exact List.mem_filter.2 ⟨committed, isAwaited_iff.2 ⟨lost, mirrors.waiting, later⟩⟩

/-- The journals are equal as long as other replacements happen to await the changes that
came later than the lost ticket. -/
theorem journal_eq_iff (mirrors : Mirrors lost real supposed) (reached : Reachable initial real) :
    real.workspace.journal = supposed.workspace.journal ↔
      ∀ entry ∈ real.changes, lost < entry.1 →
        isAwaited supposed.workspace.pending entry.1 = true := by
  have journaled : real.workspace.journal = awaitedBy real.workspace.pending real.changes :=
    reached.journaled
  constructor
  · intro same entry committed later
    have listed := mirrors.mem_journal reached committed later
    rw [same, mirrors.journal reached] at listed
    exact (List.mem_filter.1 listed).2
  · intro awaitedAnyway
    rw [journaled, mirrors.journal reached]
    refine List.filter_congr fun entry committed => ?_
    rw [Bool.eq_iff_iff]
    constructor
    · intro awaited
      obtain ⟨earlier, pending, below⟩ := isAwaited_iff.1 awaited
      by_cases same : earlier = lost
      · exact awaitedAnyway entry committed (same ▸ below)
      · refine isAwaited_iff.2 ⟨earlier, ?_, below⟩
        rw [mirrors.workspace]
        exact List.mem_filter.2 ⟨pending, by simpa using same⟩
    · rw [mirrors.workspace]
      exact isAwaited_of_filter

end Mirrors

/-- A spawn that is refused leaves its ticket among the pending ones, and there it stays
whatever happens later.  The registry and the replacements that take effect are those of
the run in which only the number was used up, and so are the pending tickets but for the
lost one.  The journal keeps every change after the lost ticket, so it is the same only
if each of them is awaited by some other replacement. -/
theorem refused_spawn_stays_pending (reached : Reachable initial run) {next : Workspace}
    (refused : run.workspace.RefusesSpawn next) :
    (run.after .requestReplacement).workspace = next ∧
    next = { run.workspace with
      requested := run.workspace.requested + 1
      pending := run.workspace.pending ++ [run.workspace.requested + 1] } ∧
    ∀ events, (run.after .requestReplacement).AdmitsAll events →
      (∀ replacement, .finishReplacement next.requested replacement ∉ events) →
      run.withoutRequest.AdmitsAll events ∧
      ∀ real supposed, real = (run.after .requestReplacement).follow events →
        supposed = run.withoutRequest.follow events →
        real.workspace.registry = supposed.workspace.registry ∧
        real.completions = supposed.completions ∧
        next.requested ∈ real.workspace.pending ∧
        real.workspace.pending.filter (· != next.requested) = supposed.workspace.pending ∧
        (∀ entry ∈ real.changes, next.requested < entry.1 →
          entry ∈ real.workspace.journal) ∧
        (real.workspace.journal = supposed.workspace.journal ↔
          ∀ entry ∈ real.changes, next.requested < entry.1 →
            isAwaited supposed.workspace.pending entry.1 = true) := by
  obtain rfl := refused.eq_requestReplacement
  refine ⟨rfl, rfl, ?_⟩
  intro events admitted spared
  have asked : Reachable initial (run.after .requestReplacement) := reached.step trivial
  obtain ⟨supposedAdmitted, mirrors⟩ := reached.mirrors.follow asked admitted spared
  refine ⟨supposedAdmitted, ?_⟩
  rintro real supposed rfl rfl
  have realReached := asked.follow admitted
  refine ⟨?_, mirrors.completions.symm, mirrors.waiting, ?_, ?_, ?_⟩
  · rw [mirrors.workspace]
    rfl
  · rw [mirrors.workspace]
    rfl
  · exact fun entry committed later => mirrors.mem_journal realReached committed later
  · exact mirrors.journal_eq_iff realReached

/-- One change on its own, and one that a discovery has to replay. -/
def laterEvents : List Event :=
  [.requestChange, .commitChange 2 (.attached (sampleProject "/a/elm.json")),
    .requestReplacement, .requestChange, .commitChange 4 (.detached ⟨"/a/elm.json"⟩),
    .finishReplacement 3 (.discovered [sampleProject "/b/elm.json"])]

theorem refused_spawn_stays_pending_laterEvents :
    Workspace.empty.RefusesSpawn Workspace.empty.requestReplacement.1 ∧
    ∃ real supposed,
      real = ((start Workspace.empty).after .requestReplacement).follow laterEvents ∧
      supposed = (start Workspace.empty).withoutRequest.follow laterEvents ∧
      real.workspace.registry = supposed.workspace.registry ∧
      1 ∈ real.workspace.pending ∧ supposed.workspace.pending = [] ∧
      (2, .attached (sampleProject "/a/elm.json")) ∈ real.workspace.journal ∧
      (4, .detached ⟨"/a/elm.json"⟩) ∈ real.workspace.journal ∧
      real.workspace.journal ≠ supposed.workspace.journal := by
  have failed : Workspace.empty.spawnDiscover (some "Resource temporarily unavailable") [] =
      (Workspace.empty.requestReplacement.1, .error _) := rfl
  have refused : (start Workspace.empty).workspace.RefusesSpawn _ := .discovery failed
  have reached : Reachable Workspace.empty (start Workspace.empty) :=
    .start (withSettings_idle {})
  have spared : ∀ replacement, .finishReplacement 1 replacement ∉ laterEvents := by
    simp [laterEvents]
  obtain ⟨_, _, later⟩ := refused_spawn_stays_pending reached refused
  obtain ⟨registry, _, waiting, _, listed, same⟩ :=
    (later laterEvents (by decide) spared).2 _ _ rfl rfl
  refine ⟨refused, _, _, rfl, rfl, registry, waiting, by decide, ?_, ?_, ?_⟩
  · exact listed _ (by decide) (by decide)
  · exact listed _ (by decide) (by decide)
  · rw [Ne, same]
    decide

end Run

/-- An attachment and a detachment, while nothing is scanned or loaded. -/
def attachedAndDetached (workspace : Workspace) : Workspace :=
  workspace.performAll
    [.attach (exampleDisk "a") .empty ⟨"a"⟩, .detach (exampleDisk "a") ⟨"a/elm.json"⟩]

/-- After a discovery that could not be started both changes stay in the journal. -/
theorem refused_discovery_is_remembered :
    match Workspace.empty.spawnDiscover (some "Resource temporarily unavailable") [] with
    | (_, .ok _) => False
    | (refused, .error _) =>
        refused.pending = [1] ∧
        (attachedAndDetached refused).journal.map Prod.fst = [2, 3] ∧
        (attachedAndDetached Workspace.empty.requestChange.1).journal = [] := by
  have remembered :
      (attachedAndDetached Workspace.empty.requestReplacement.1).journal.map Prod.fst = [2, 3] := by
    decide +kernel
  have forgotten : (attachedAndDetached Workspace.empty.requestChange.1).journal.length = 0 := by
    decide +kernel
  exact ⟨rfl, remembered, List.length_eq_zero_iff.1 forgotten⟩

end ElmAtlas.Workspace
