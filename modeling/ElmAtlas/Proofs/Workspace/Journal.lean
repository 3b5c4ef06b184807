import ElmAtlas.Proofs.Workspace.Run

/-!
# The journal is complete

The journal is written to only while a replacement is pending, and it is cut back
whenever one finishes.  All the same it holds, at every point of every run, each
committed change that a pending replacement may have to replay: those with a
ticket after the oldest pending one.  A replacement that takes effect therefore
replays every later change of the whole run, and nothing else.
-/

namespace ElmAtlas.Workspace.Run

variable {initial : Workspace} {run : Run}

/-- The invariant of the journal: it holds the committed changes that are awaited. -/
def Journaled (run : Run) : Prop :=
  run.workspace.journal =
    run.changes.filter fun entry => isAwaited run.workspace.pending entry.1

theorem Journaled.afterRequestReplacement (journaled : run.Journaled)
    (single : run.SingleUse) : (run.after .requestReplacement).Journaled := by
  refine journaled.trans (List.filter_congr ?_)
  intro entry member
  -- No ticket so far is later than the one that becomes pending.
  have older : entry.1 ≤ run.workspace.requested + 1 :=
    Nat.le_succ_of_le (single.changeBound entry member)
  exact (isAwaited_append_of_le older).symm

theorem Journaled.afterCommitChange (journaled : run.Journaled) (ticket : Ticket)
    (change : Change) : (run.after (.commitChange ticket change)).Journaled := by
  unfold Journaled at journaled ⊢
  by_cases awaited : isAwaited run.workspace.pending ticket = true
  · simp [after, Workspace.commitChange, List.filter_append, awaited, journaled]
  · simp [after, Workspace.commitChange, List.filter_append, awaited, journaled]

theorem Journaled.afterFinish (journaled : run.Journaled) (ticket : Ticket)
    (replacement : Replacement) :
    (run.after (.finishReplacement ticket replacement)).Journaled := by
  unfold Journaled at journaled ⊢
  simp only [after, finish_journal, finish_pending, journaled]
  exact awaitedBy_filter_awaitedBy _ _ _

theorem Reachable.journaled (reached : Reachable initial run) : run.Journaled := by
  induction reached with
  | start idle => exact idle.journal
  | @step run event reached admitted journaled =>
      cases event with
      | requestChange => exact journaled
      | requestReplacement => exact journaled.afterRequestReplacement reached.singleUse
      | commitChange ticket change => exact journaled.afterCommitChange ticket change
      | finishReplacement ticket replacement => exact journaled.afterFinish ticket replacement
      | updateSettings update => exact journaled

theorem Reachable.journal_eq_nil (reached : Reachable initial run)
    (finished : run.workspace.pending = []) : run.workspace.journal = [] := by
  have journaled : run.workspace.journal = _ := reached.journaled
  rw [journaled, finished]
  exact List.filter_eq_nil_iff.2 (by simp [isAwaited])

/-- A pending replacement finds all later changes of the run in the journal. -/
theorem Reachable.laterChanges_journal (reached : Reachable initial run) {ticket : Ticket}
    (pending : ticket ∈ run.workspace.pending) :
    laterChanges run.workspace.journal ticket = laterChanges run.changes ticket := by
  have journaled : run.workspace.journal = awaitedBy run.workspace.pending run.changes :=
    reached.journaled
  rw [journaled, laterChanges_awaitedBy pending]

theorem Reachable.finish_registry (reached : Reachable initial run) {ticket : Ticket}
    (pending : ticket ∈ run.workspace.pending)
    (fresh : run.workspace.isFresh ticket = true) (replacement : Replacement) :
    (run.workspace.finish ticket replacement).registry =
      (replacement.replace run.workspace.registry).replay
        (laterChanges run.changes ticket) := by
  rw [Workspace.finish_registry, if_pos fresh, reached.laterChanges_journal pending]

/-- The journal lists, in the order of their commits, exactly the changes of the
run whose ticket is later than the oldest pending one.  Whenever a replacement
takes effect, the projects are its own with all changes of the run after its
ticket on top, in the order of their tickets. -/
theorem journal_complete (reached : Reachable initial run) :
    (run.workspace.journal =
      match run.workspace.pending.min? with
      | some oldest => run.changes.filter fun entry => oldest < entry.1
      | none => []) ∧
    ∀ ticket ∈ run.workspace.pending, ∀ replacement : Replacement,
      (run.workspace.commitReplacement ticket replacement.replace).2 = true →
      ∃ later : List (Ticket × Change),
        later.Perm (run.changes.filter fun entry => ticket < entry.1) ∧
        later.Pairwise (fun left right => left.1 < right.1) ∧
        (run.after (.finishReplacement ticket replacement)).workspace.projects =
          ((⟨replacement.projects, run.workspace.settings⟩ :
            Registry).replay later).projects := by
  refine ⟨?_, ?_⟩
  · split
    · rename_i oldest least
      have journaled : run.workspace.journal = _ := reached.journaled
      simpa only [isAwaited_eq_of_min? least] using journaled
    · rename_i least
      exact reached.journal_eq_nil (List.min?_eq_none_iff.1 least)
  · intro ticket pending replacement effective
    have fresh : run.workspace.isFresh ticket = true := by
      rwa [commitReplacement_snd] at effective
    refine ⟨laterChanges run.changes ticket, laterChanges_perm _ _,
      laterChanges_pairwise ticket reached.singleUse.distinct, ?_⟩
    have registry := reached.finish_registry pending fresh replacement
    calc
      (run.workspace.finish ticket replacement).registry.projects =
          ((replacement.replace run.workspace.registry).replay
            (laterChanges run.changes ticket)).projects := by rw [registry]
      _ = _ := Registry.replay_projects_congr (by simp) _

/-- Two replacements were requested, each with an attachment after it; the
attachments committed in the other order, and the older replacement is done. -/
def halfFinished : Run :=
  (start Workspace.empty).follow
    [.requestReplacement, .requestChange, .requestReplacement, .requestChange,
      .commitChange 4 (.attached (sampleProject "/b/elm.json")),
      .commitChange 2 (.attached (sampleProject "/a/elm.json")),
      .finishReplacement 1 (.discovered [])]

private theorem halfFinished_reachable : Reachable Workspace.empty halfFinished :=
  (Reachable.start (withSettings_idle {})).follow (by decide)

theorem journal_complete_halfFinished :
    Reachable Workspace.empty halfFinished ∧
    halfFinished.workspace.journal = [(4, .attached (sampleProject "/b/elm.json"))] ∧
    ∃ later : List (Ticket × Change),
      later.Perm (halfFinished.changes.filter fun entry => 3 < entry.1) ∧
      later.Pairwise (fun left right => left.1 < right.1) ∧
      (halfFinished.after (.finishReplacement 3
        (.discovered [sampleProject "/c/elm.json"]))).workspace.projects =
        ((⟨[sampleProject "/c/elm.json"], halfFinished.workspace.settings⟩ :
          Registry).replay later).projects := by
  have complete := journal_complete halfFinished_reachable
  refine ⟨halfFinished_reachable, complete.1.trans (by decide), ?_⟩
  exact complete.2 3 (by decide) (.discovered [sampleProject "/c/elm.json"]) (by decide)

end ElmAtlas.Workspace.Run
