import ElmAtlas.Proofs.Workspace.Supersession
import Mathlib.Data.Finset.Max

/-!
# The changes of one manifest

Changes are published in the order of their commits and replayed in the order of
their tickets.  When a replacement takes effect, a manifest that was changed
after the request of the replacement gets what its newest change left for it.
The registry holds the same before and after if the newest change was also the
last one to be committed; two changes that are committed against the order of
their tickets can be told apart by a replacement between them.
-/

namespace ElmAtlas.Workspace.Run

variable {initial : Workspace} {run : Run} {manifestPath : Path}

/-- The committed changes of a manifest, in the order of their commits. -/
def changesOf (run : Run) (manifestPath : Path) : List (Ticket × Change) :=
  run.changes.filter fun entry => entry.2.concerns manifestPath

theorem mem_changesOf {entry : Ticket × Change} :
    entry ∈ run.changesOf manifestPath ↔
      entry ∈ run.changes ∧ entry.2.concerns manifestPath = true := by
  rw [changesOf, List.mem_filter]

/-- The change of a manifest that was requested last. -/
structure IsNewest (run : Run) (manifestPath : Path) (newest : Ticket × Change) : Prop where
  member : newest ∈ run.changesOf manifestPath
  largest : ∀ entry ∈ run.changesOf manifestPath, entry.1 ≤ newest.1

theorem exists_isNewest (changed : run.changesOf manifestPath ≠ []) :
    ∃ newest, run.IsNewest manifestPath newest := by
  have nonempty : (run.changesOf manifestPath).toFinset.Nonempty := by
    obtain ⟨entry, member⟩ := List.exists_mem_of_ne_nil _ changed
    exact ⟨entry, List.mem_toFinset.2 member⟩
  obtain ⟨newest, member, largest⟩ := Finset.exists_max_image _ Prod.fst nonempty
  refine ⟨newest, List.mem_toFinset.1 member, ?_⟩
  intro entry entryMember
  exact largest entry (List.mem_toFinset.2 entryMember)

theorem IsNewest.find?_replay {newest : Ticket × Change} {ticket : Ticket}
    (isNewest : run.IsNewest manifestPath newest) (single : run.SingleUse)
    (later : ticket < newest.1) (registry : Registry) :
    (registry.replay (laterChanges run.changes ticket)).find? manifestPath =
      newest.2.outcome := by
  obtain ⟨member, concerned⟩ := mem_changesOf.1 isNewest.member
  refine Registry.find?_replay_of_newest (laterChanges_pairwise ticket single.distinct)
    (mem_laterChanges.2 ⟨member, later⟩) concerned ?_ registry
  intro entry entryMember entryConcerned
  exact isNewest.largest entry
    (mem_changesOf.2 ⟨(mem_laterChanges.1 entryMember).1, entryConcerned⟩)

theorem Reachable.find?_afterFinish (reached : Reachable initial run) {ticket : Ticket}
    (pending : ticket ∈ run.workspace.pending)
    (fresh : run.workspace.isFresh ticket = true) (replacement : Replacement)
    {newest : Ticket × Change} (isNewest : run.IsNewest manifestPath newest)
    (later : ticket < newest.1) :
    (run.after (.finishReplacement ticket replacement)).workspace.registry.find?
      manifestPath = newest.2.outcome := by
  simp only [after, reached.finish_registry pending fresh replacement]
  exact isNewest.find?_replay reached.singleUse later _

/-- The invariant of a manifest: if its last change is also the newest one and no
later replacement has taken effect, the registry shows what that change left. -/
def Shows (run : Run) (manifestPath : Path) : Prop :=
  ∀ last, (run.changesOf manifestPath).getLast? = some last →
    run.IsNewest manifestPath last → run.workspace.committed < last.1 →
    run.workspace.registry.find? manifestPath = last.2.outcome

private theorem changesOf_afterCommit (run : Run) (manifestPath : Path) (ticket : Ticket)
    (change : Change) :
    (run.after (.commitChange ticket change)).changesOf manifestPath =
      if change.concerns manifestPath then run.changesOf manifestPath ++ [(ticket, change)]
      else run.changesOf manifestPath := by
  cases concerned : change.concerns manifestPath <;>
    simp [after, changesOf, List.filter_append, concerned]

/-- Steps that leave the manifest alone keep what is shown for it. -/
theorem Shows.mono {next : Run} (shows : run.Shows manifestPath)
    (changes : next.changesOf manifestPath = run.changesOf manifestPath)
    (found : next.workspace.registry.find? manifestPath =
      run.workspace.registry.find? manifestPath)
    (committed : next.workspace.committed = run.workspace.committed) :
    next.Shows manifestPath := by
  intro last final isNewest later
  rw [changes] at final
  rw [committed] at later
  have isNewestBefore : run.IsNewest manifestPath last := by
    refine ⟨changes ▸ isNewest.member, ?_⟩
    intro entry member
    exact isNewest.largest entry (changes.symm ▸ member)
  exact found.trans (shows last final isNewestBefore later)

theorem Shows.afterCommit (shows : run.Shows manifestPath) (ticket : Ticket)
    (change : Change) : (run.after (.commitChange ticket change)).Shows manifestPath := by
  have applied := Registry.find?_apply run.workspace.registry change manifestPath
  have same := changesOf_afterCommit run manifestPath ticket change
  by_cases concerned : change.concerns manifestPath = true
  · rw [if_pos concerned] at applied same
    intro last final _ _
    obtain rfl : (ticket, change) = last := by simpa [same] using final
    exact applied
  · rw [if_neg concerned] at applied same
    exact shows.mono same applied rfl

theorem Shows.afterFinish (shows : run.Shows manifestPath) (reached : Reachable initial run)
    {ticket : Ticket} (pending : ticket ∈ run.workspace.pending)
    (replacement : Replacement) :
    (run.after (.finishReplacement ticket replacement)).Shows manifestPath := by
  cases fresh : run.workspace.isFresh ticket with
  | true =>
      intro last final isNewest later
      have isNewestBefore : run.IsNewest manifestPath last :=
        ⟨isNewest.member, isNewest.largest⟩
      simp only [after, finish_committed, fresh, if_true] at later
      exact reached.find?_afterFinish pending fresh replacement isNewestBefore later
  | false =>
      have registry := finish_registry_of_stale _ _ replacement fresh
      have committed : (run.workspace.finish ticket replacement).committed =
          run.workspace.committed := by simp [finish_committed, fresh]
      exact shows.mono rfl (congrArg (Registry.find? · manifestPath) registry) committed

theorem Reachable.shows (reached : Reachable initial run) (manifestPath : Path) :
    run.Shows manifestPath := by
  induction reached with
  | start idle =>
      intro last final
      simp [Run.start, changesOf] at final
  | @step run event reached admitted shows =>
      cases event with
      | requestChange => exact shows.mono rfl rfl rfl
      | requestReplacement => exact shows.mono rfl rfl rfl
      | commitChange ticket change => exact shows.afterCommit ticket change
      | finishReplacement ticket replacement =>
          exact shows.afterFinish reached admitted replacement
      | updateSettings update => exact shows.mono rfl rfl rfl

/-- When a replacement takes effect, a manifest with a later change gets what its
newest change left.  That is what the registry held before, provided that the
last change of the manifest to be committed was also the newest one. -/
theorem replacement_keeps_newest_change (reached : Reachable initial run) {ticket : Ticket}
    (pending : ticket ∈ run.workspace.pending) {replacement : Replacement}
    (effective : (run.workspace.commitReplacement ticket replacement.replace).2 = true)
    (changed : ∃ entry ∈ run.changesOf manifestPath, ticket < entry.1) :
    (∃ newest, run.IsNewest manifestPath newest ∧
      (run.after (.finishReplacement ticket replacement)).workspace.registry.find?
        manifestPath = newest.2.outcome) ∧
    ((∃ last, (run.changesOf manifestPath).getLast? = some last ∧
        run.IsNewest manifestPath last) →
      (run.after (.finishReplacement ticket replacement)).workspace.registry.find?
        manifestPath = run.workspace.registry.find? manifestPath) := by
  have fresh : run.workspace.isFresh ticket = true := by
    rwa [commitReplacement_snd] at effective
  obtain ⟨entry, member, entryLater⟩ := changed
  have later : ∀ newest, run.IsNewest manifestPath newest → ticket < newest.1 := by
    intro newest isNewest
    exact Nat.lt_of_lt_of_le entryLater (isNewest.largest entry member)
  refine ⟨?_, ?_⟩
  · obtain ⟨newest, isNewest⟩ := exists_isNewest (List.ne_nil_of_mem member)
    exact ⟨newest, isNewest,
      reached.find?_afterFinish pending fresh replacement isNewest (later newest isNewest)⟩
  · rintro ⟨last, final, isNewest⟩
    have above : run.workspace.committed < last.1 :=
      Nat.lt_trans ((reached.watermarked.isFresh_iff pending).1 fresh) (later last isNewest)
    calc
      (run.after (.finishReplacement ticket replacement)).workspace.registry.find?
          manifestPath = last.2.outcome :=
        reached.find?_afterFinish pending fresh replacement isNewest (later last isNewest)
      _ = run.workspace.registry.find? manifestPath :=
        (reached.shows manifestPath last final isNewest above).symm

/-- A manifest is attached; while a discovery is pending, two more changes of it
are requested and then committed. -/
def changedTwice (first second : Event) : Run :=
  (start Workspace.empty).follow
    [.requestChange, .commitChange 1 (.attached (sampleProject "/a/elm.json")),
      .requestReplacement, .requestChange, .requestChange, first, second]

def inTicketOrder : Run :=
  changedTwice (.commitChange 3 (.detached ⟨"/a/elm.json"⟩))
    (.commitChange 4 (.attached (sampleProject "/a/elm.json")))

theorem replacement_keeps_newest_change_inTicketOrder :
    (inTicketOrder.after (.finishReplacement 2 (.discovered []))).workspace.registry.find?
        ⟨"/a/elm.json"⟩ =
      inTicketOrder.workspace.registry.find? ⟨"/a/elm.json"⟩ := by
  have reached : Reachable Workspace.empty inTicketOrder :=
    (Reachable.start (withSettings_idle {})).follow (by decide)
  have effective : (inTicketOrder.workspace.commitReplacement 2
      (Replacement.discovered []).replace).2 = true := by decide
  have isNewest : inTicketOrder.IsNewest ⟨"/a/elm.json"⟩
      (4, .attached (sampleProject "/a/elm.json")) := ⟨by decide, by decide⟩
  exact (replacement_keeps_newest_change reached (by decide) effective
    ⟨_, isNewest.member, by decide⟩).2 ⟨_, by decide, isNewest⟩

def againstTicketOrder : Run :=
  changedTwice (.commitChange 4 (.detached ⟨"/a/elm.json"⟩))
    (.commitChange 3 (.attached (sampleProject "/a/elm.json")))

/-- A replacement takes a manifest away that was attached last, if the attachment
was requested before a detachment. -/
theorem replacement_flips_reordered_changes :
    ¬∀ (initial : Workspace) (run : Run), Reachable initial run →
      ∀ ticket ∈ run.workspace.pending, ∀ replacement : Replacement,
        (run.workspace.commitReplacement ticket replacement.replace).2 = true →
        ∀ manifestPath, (∃ entry ∈ run.changesOf manifestPath, ticket < entry.1) →
          (run.after (.finishReplacement ticket replacement)).workspace.registry.find?
              manifestPath =
            run.workspace.registry.find? manifestPath := by
  intro kept
  have reached : Reachable Workspace.empty againstTicketOrder :=
    (Reachable.start (withSettings_idle {})).follow (by decide)
  have effective : (againstTicketOrder.workspace.commitReplacement 2
      (Replacement.discovered []).replace).2 = true := by decide
  have isNewest : againstTicketOrder.IsNewest ⟨"/a/elm.json"⟩
      (4, .detached ⟨"/a/elm.json"⟩) := ⟨by decide, by decide⟩
  have before : againstTicketOrder.workspace.registry.find? ⟨"/a/elm.json"⟩ =
      some (sampleProject "/a/elm.json") := by decide
  have after := reached.find?_afterFinish (by decide) (by decide) (.discovered []) isNewest
    (show 2 < 4 by decide)
  have same := kept _ _ reached 2 (by decide) (.discovered []) effective ⟨"/a/elm.json"⟩
    ⟨_, isNewest.member, by decide⟩
  rw [before, after] at same
  cases same

end ElmAtlas.Workspace.Run
