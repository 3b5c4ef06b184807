import ElmAtlas.Proofs.Workspace.Journal
import Mathlib.Data.List.Nodup

/-!
# The newest replacement wins

Replacements finish in any order.  The workspace keeps a watermark, the ticket of
the last replacement that took effect, and lets a replacement take effect only
above it.  So the tickets of the effective replacements ascend, the last of them
is the largest one that was asked for, and what the registry lists in the end
does not depend on the order in which replacements finish.
-/

namespace ElmAtlas.Workspace.Run

variable {initial : Workspace} {run : Run}

/-- The requests behind the finished replacements, in the order of finishing. -/
def finished (run : Run) : List (Ticket × Replacement) :=
  run.completions.map fun completion => (completion.ticket, completion.replacement)

def AllFinished (run : Run) : Prop :=
  ∀ ticket ∈ run.asked, ∃ completion ∈ run.completions, completion.ticket = ticket

/-- The invariant of the watermark in a run from a workspace. -/
structure Watermarked (initial : Workspace) (run : Run) : Prop where
  committedBound : run.workspace.committed ≤ run.workspace.requested
  committedDone : run.workspace.committed ∉ run.workspace.pending
  askedBound : ∀ ticket ∈ run.asked,
    initial.committed < ticket ∧ ticket ≤ run.workspace.requested
  askedSettled : ∀ ticket ∈ run.asked,
    ticket ∈ run.workspace.pending ∨ ticket ≤ run.workspace.committed
  pendingAsked : ∀ ticket ∈ run.workspace.pending, ticket ∈ run.asked
  completedAsked : ∀ completion ∈ run.completions, completion.ticket ∈ run.asked
  completedBound : ∀ completion ∈ run.completions,
    completion.ticket ≤ run.workspace.committed
  completedDone : ∀ completion ∈ run.completions,
    completion.ticket ∉ run.workspace.pending
  completedDistinct : (run.completions.map Completion.ticket).Nodup
  watermark : run.workspace.committed =
    (run.effective.getLast?.map Completion.ticket).getD initial.committed

private theorem watermarked_start (idle : initial.Idle) : Watermarked initial (start initial) where
  committedBound := idle.committed
  committedDone := by
    intro member
    rw [start, idle.pending] at member
    exact List.not_mem_nil member
  askedBound := fun _ member => (List.not_mem_nil member).elim
  askedSettled := fun _ member => (List.not_mem_nil member).elim
  pendingAsked := by
    intro ticket member
    rw [start, idle.pending] at member
    exact (List.not_mem_nil member).elim
  completedAsked := fun _ member => (List.not_mem_nil member).elim
  completedBound := fun _ member => (List.not_mem_nil member).elim
  completedDone := fun _ member => (List.not_mem_nil member).elim
  completedDistinct := List.Pairwise.nil
  watermark := rfl

theorem mem_completions_of_getLast? {last : Completion}
    (newest : run.effective.getLast? = some last) : last ∈ run.completions :=
  (List.mem_filter.1 (List.mem_of_getLast? newest)).1

private theorem Watermarked.initial_le_committed (marked : Watermarked initial run) :
    initial.committed ≤ run.workspace.committed := by
  rw [marked.watermark]
  cases newest : run.effective.getLast? with
  | none => exact Nat.le_refl _
  | some last =>
      have asked := marked.completedAsked last (mem_completions_of_getLast? newest)
      exact Nat.le_of_lt (marked.askedBound last.ticket asked).1

theorem Watermarked.committed_le (marked : Watermarked initial run) {bound : Ticket}
    (initialBound : initial.committed ≤ bound)
    (askedBound : ∀ ticket ∈ run.asked, ticket ≤ bound) :
    run.workspace.committed ≤ bound := by
  rw [marked.watermark]
  cases newest : run.effective.getLast? with
  | none => exact initialBound
  | some last =>
      exact askedBound _ (marked.completedAsked last (mem_completions_of_getLast? newest))

theorem Watermarked.committed_eq_last (marked : Watermarked initial run)
    {last : Completion} (newest : run.effective.getLast? = some last) :
    run.workspace.committed = last.ticket := by
  rw [marked.watermark, newest]
  rfl

/-- A replacement that is settled was settled by an effective one. -/
theorem Watermarked.exists_effective (marked : Watermarked initial run) {ticket : Ticket}
    (asked : ticket ∈ run.asked) (settled : ticket ≤ run.workspace.committed) :
    ∃ last, run.effective.getLast? = some last := by
  cases newest : run.effective.getLast? with
  | none =>
      -- Otherwise the watermark would lie where the run began, below all tickets.
      have watermark := marked.watermark
      rw [newest] at watermark
      have above := (marked.askedBound ticket asked).1
      exact absurd settled (Nat.not_le_of_gt (watermark ▸ above))
  | some last => exact ⟨last, rfl⟩

theorem Watermarked.mono {next : Run} (marked : Watermarked initial run)
    (pending : next.workspace.pending = run.workspace.pending)
    (committed : next.workspace.committed = run.workspace.committed)
    (asked : next.asked = run.asked) (completions : next.completions = run.completions)
    (requested : run.workspace.requested ≤ next.workspace.requested) :
    Watermarked initial next := by
  obtain ⟨committedBound, committedDone, askedBound, askedSettled, pendingAsked,
    completedAsked, completedBound, completedDone, completedDistinct, watermark⟩ := marked
  have effective : next.effective = run.effective := by rw [Run.effective, completions]; rfl
  constructor
  all_goals simp only [pending, committed, asked, completions, effective]
  · exact Nat.le_trans committedBound requested
  · exact committedDone
  · intro ticket member
    obtain ⟨after, bound⟩ := askedBound ticket member
    exact ⟨after, Nat.le_trans bound requested⟩
  · exact askedSettled
  · exact pendingAsked
  · exact completedAsked
  · exact completedBound
  · exact completedDone
  · exact completedDistinct
  · exact watermark

theorem Watermarked.afterRequestReplacement (marked : Watermarked initial run) :
    Watermarked initial (run.after .requestReplacement) := by
  -- The new ticket lies above everything handed out so far.
  have unreached : ∀ ticket, ticket ≤ run.workspace.requested →
      ticket ∉ run.workspace.pending →
      ticket ∉ run.workspace.pending ++ [run.workspace.requested + 1] := by
    intro ticket bound absent member
    rcases List.mem_append.1 member with old | new
    · exact absent old
    · rw [List.mem_singleton.1 new] at bound
      exact Nat.not_succ_le_self _ bound
  refine ⟨?_, ?_, ?_, ?_, ?_, ?_, marked.completedBound, ?_, marked.completedDistinct,
    marked.watermark⟩
  · exact Nat.le_succ_of_le marked.committedBound
  · exact unreached _ marked.committedBound marked.committedDone
  · intro ticket member
    rcases List.mem_append.1 member with old | new
    · obtain ⟨after, bound⟩ := marked.askedBound ticket old
      exact ⟨after, Nat.le_succ_of_le bound⟩
    · obtain rfl := List.mem_singleton.1 new
      have below := Nat.le_trans marked.initial_le_committed marked.committedBound
      exact ⟨Nat.lt_succ_of_le below, Nat.le_refl _⟩
  · intro ticket member
    rcases List.mem_append.1 member with old | new
    · exact (marked.askedSettled ticket old).imp_left (List.mem_append_left _)
    · exact .inl (List.mem_append_right _ new)
  · intro ticket member
    rcases List.mem_append.1 member with old | new
    · exact List.mem_append_left _ (marked.pendingAsked ticket old)
    · exact List.mem_append_right _ new
  · intro completion member
    exact List.mem_append_left _ (marked.completedAsked completion member)
  · intro completion member
    have bound := Nat.le_trans (marked.completedBound completion member) marked.committedBound
    exact unreached _ bound (marked.completedDone completion member)

/-- A pending replacement is never level with the watermark. -/
theorem Watermarked.isFresh_iff (marked : Watermarked initial run) {ticket : Ticket}
    (pending : ticket ∈ run.workspace.pending) :
    run.workspace.isFresh ticket = true ↔ run.workspace.committed < ticket := by
  have different : run.workspace.committed ≠ ticket := by
    rintro rfl
    exact marked.committedDone pending
  rw [isFresh, decide_eq_true_eq]
  exact ⟨fun bound => Nat.lt_of_le_of_ne bound different, Nat.le_of_lt⟩

theorem effective_afterFinish (run : Run) (ticket : Ticket) (replacement : Replacement) :
    (run.after (.finishReplacement ticket replacement)).effective =
      if run.workspace.isFresh ticket then
        run.effective ++ [⟨ticket, replacement, true⟩]
      else run.effective := by
  simp only [after, Run.effective, List.filter_append, commitReplacement_snd]
  cases run.workspace.isFresh ticket <;> simp

/-- The watermark rises to the ticket, unless it is above it already. -/
theorem Watermarked.committed_afterFinish (marked : Watermarked initial run)
    {ticket : Ticket} (pending : ticket ∈ run.workspace.pending)
    (replacement : Replacement) :
    (run.workspace.finish ticket replacement).committed =
      max run.workspace.committed ticket := by
  rw [finish_committed]
  split
  · rename_i fresh
    exact (Nat.max_eq_right (Nat.le_of_lt ((marked.isFresh_iff pending).1 fresh))).symm
  · rename_i stale
    have below := mt (marked.isFresh_iff pending).2 stale
    exact (Nat.max_eq_left (Nat.le_of_not_lt below)).symm

theorem Watermarked.watermark_afterFinish (marked : Watermarked initial run)
    (ticket : Ticket) (replacement : Replacement) :
    (run.workspace.finish ticket replacement).committed =
      ((run.after (.finishReplacement ticket replacement)).effective.getLast?.map
        Completion.ticket).getD initial.committed := by
  rw [effective_afterFinish, finish_committed]
  split
  · simp
  · exact marked.watermark

theorem Watermarked.afterFinish (marked : Watermarked initial run) {ticket : Ticket}
    (pending : ticket ∈ run.workspace.pending) (replacement : Replacement) :
    Watermarked initial (run.after (.finishReplacement ticket replacement)) := by
  have asked := marked.pendingAsked ticket pending
  have committed := marked.committed_afterFinish pending replacement
  have gone : ∀ other, other ∉ run.workspace.pending ∨ other = ticket →
      other ∉ run.workspace.pending.filter (· != ticket) := by
    intro other done member
    obtain ⟨still, different⟩ := List.mem_filter.1 member
    rcases done with absent | same
    · exact absent still
    · simp [same] at different
  constructor
  all_goals simp only [after, finish_requested, finish_pending, committed]
  · exact Nat.max_le.2 ⟨marked.committedBound, (marked.askedBound ticket asked).2⟩
  · rcases Nat.le_total run.workspace.committed ticket with above | below
    · exact gone _ (.inr (Nat.max_eq_right above))
    · exact gone _ (.inl (by rw [Nat.max_eq_left below]; exact marked.committedDone))
  · exact marked.askedBound
  · intro other member
    by_cases same : other = ticket
    · exact .inr (same ▸ Nat.le_max_right _ _)
    · rcases marked.askedSettled other member with still | bound
      · exact .inl (List.mem_filter.2 ⟨still, by simp [same]⟩)
      · exact .inr (Nat.le_trans bound (Nat.le_max_left _ _))
  · intro other member
    exact marked.pendingAsked other (List.mem_filter.1 member).1
  · intro completion member
    rcases List.mem_append.1 member with old | new
    · exact marked.completedAsked completion old
    · obtain rfl := List.mem_singleton.1 new
      exact asked
  · intro completion member
    rcases List.mem_append.1 member with old | new
    · exact Nat.le_trans (marked.completedBound completion old) (Nat.le_max_left _ _)
    · obtain rfl := List.mem_singleton.1 new
      exact Nat.le_max_right _ _
  · intro completion member
    rcases List.mem_append.1 member with old | new
    · exact gone _ (.inl (marked.completedDone completion old))
    · obtain rfl := List.mem_singleton.1 new
      exact gone _ (.inr rfl)
  · rw [List.map_append, List.nodup_append]
    refine ⟨marked.completedDistinct, by simp, ?_⟩
    intro left leftMember right rightMember same
    obtain ⟨completion, member, rfl⟩ := List.mem_map.1 leftMember
    obtain rfl : right = ticket := by simpa using rightMember
    exact marked.completedDone completion member (same ▸ pending)
  · exact committed.symm.trans (marked.watermark_afterFinish ticket replacement)

theorem Reachable.watermarked (reached : Reachable initial run) :
    Watermarked initial run := by
  induction reached with
  | start idle => exact watermarked_start idle
  | @step run event reached admitted marked =>
      cases event with
      | requestChange => exact marked.mono rfl rfl rfl rfl (Nat.le_succ _)
      | requestReplacement => exact marked.afterRequestReplacement
      | commitChange ticket change => exact marked.mono rfl rfl rfl rfl (Nat.le_refl _)
      | finishReplacement ticket replacement => exact marked.afterFinish admitted replacement
      | updateSettings update => exact marked.mono rfl rfl rfl rfl (Nat.le_refl _)

/-- A replacement takes effect exactly if it is newer than all that did. -/
theorem Watermarked.isFresh_iff_newest (marked : Watermarked initial run) {ticket : Ticket}
    (pending : ticket ∈ run.workspace.pending) :
    run.workspace.isFresh ticket = true ↔
      ∀ completion ∈ run.effective, completion.ticket < ticket := by
  rw [marked.isFresh_iff pending]
  constructor
  · intro above completion member
    have bound := marked.completedBound completion (List.mem_filter.1 member).1
    exact Nat.lt_of_le_of_lt bound above
  · intro newest
    rw [marked.watermark]
    cases found : run.effective.getLast? with
    | none => exact (marked.askedBound ticket (marked.pendingAsked ticket pending)).1
    | some last => exact newest last (List.mem_of_getLast? found)

private theorem Watermarked.exists_last (marked : Watermarked initial run)
    (settled : run.AllFinished) (requested : run.asked ≠ []) :
    ∃ last, run.effective.getLast? = some last ∧ last.ticket ∈ run.asked ∧
      ∀ ticket ∈ run.asked, ticket ≤ last.ticket := by
  have bound : ∀ ticket ∈ run.asked, ticket ≤ run.workspace.committed := by
    intro ticket member
    obtain ⟨completion, completed, rfl⟩ := settled ticket member
    exact marked.completedBound completion completed
  obtain ⟨ticket, member⟩ := List.exists_mem_of_ne_nil _ requested
  obtain ⟨last, newest⟩ := marked.exists_effective member (bound ticket member)
  refine ⟨last, newest, ?_, ?_⟩
  · exact marked.completedAsked last (mem_completions_of_getLast? newest)
  · rw [← marked.committed_eq_last newest]
    exact bound

theorem Reachable.projects_of_unchanged (reached : Reachable initial run)
    (unchanged : run.changes = []) :
    run.workspace.projects =
      (run.effective.getLast?.map fun last => last.replacement.projects).getD
        initial.projects := by
  induction reached with
  | start idle => rfl
  | @step run event reached admitted induction =>
      cases event with
      | requestChange => exact induction unchanged
      | requestReplacement => exact induction unchanged
      | commitChange ticket change => simp [after] at unchanged
      | finishReplacement ticket replacement =>
          have previous := induction unchanged
          rw [effective_afterFinish]
          split
          · rename_i fresh
            have registry := reached.finish_registry admitted fresh replacement
            have nothing : laterChanges run.changes ticket = [] := by
              rw [show run.changes = [] from unchanged, laterChanges_nil]
            simp [after, Workspace.projects, registry, nothing]
          · rename_i stale
            have registry := finish_registry_of_stale _ _ replacement (Bool.eq_false_iff.2 stale)
            rw [← previous]
            exact congrArg Registry.projects registry
      | updateSettings update => exact induction unchanged

theorem mem_finished {request : Ticket × Replacement} :
    request ∈ run.finished ↔
      ∃ completion ∈ run.completions,
        completion.ticket = request.1 ∧ completion.replacement = request.2 := by
  simp only [finished, List.mem_map, Prod.ext_iff]

private theorem Watermarked.finished_eq_of_ticket_eq (marked : Watermarked initial run)
    {left right : Ticket × Replacement} (leftMember : left ∈ run.finished)
    (rightMember : right ∈ run.finished) (same : left.1 = right.1) : left = right := by
  have distinct : (run.finished.map Prod.fst).Nodup := by
    rw [finished, List.map_map]
    exact marked.completedDistinct
  exact List.inj_on_of_nodup_map distinct leftMember rightMember same

theorem Watermarked.finished_le (marked : Watermarked initial run) {last : Completion}
    (newest : run.effective.getLast? = some last) {request : Ticket × Replacement}
    (member : request ∈ run.finished) : request.1 ≤ last.ticket := by
  obtain ⟨completion, completed, same, _⟩ := mem_finished.1 member
  rw [← same, ← marked.committed_eq_last newest]
  exact marked.completedBound completion completed

theorem Watermarked.effective_ne_nil (marked : Watermarked initial run)
    (some : run.finished ≠ []) : run.effective.getLast? ≠ none := by
  obtain ⟨request, member⟩ := List.exists_mem_of_ne_nil _ some
  obtain ⟨completion, completed, _, _⟩ := mem_finished.1 member
  obtain ⟨last, newest⟩ := marked.exists_effective
    (marked.completedAsked completion completed) (marked.completedBound completion completed)
  simp [newest]

/-- The last effective replacement does not depend on the order of finishing. -/
theorem Watermarked.last_eq_of_perm {other : Run} (marked : Watermarked initial run)
    (otherMarked : Watermarked initial other) (same : run.finished.Perm other.finished) :
    (run.effective.getLast?.map fun last => (last.ticket, last.replacement)) =
      other.effective.getLast?.map fun last => (last.ticket, last.replacement) := by
  have request : ∀ {run : Run} {last : Completion}, run.effective.getLast? = some last →
      (last.ticket, last.replacement) ∈ run.finished := by
    intro run last newest
    exact mem_finished.2 ⟨last, mem_completions_of_getLast? newest, rfl, rfl⟩
  cases found : run.effective.getLast? with
  | none =>
      cases otherFound : other.effective.getLast? with
      | none => rfl
      | some otherLast =>
          have member := same.mem_iff.2 (request otherFound)
          exact absurd found (marked.effective_ne_nil (List.ne_nil_of_mem member))
  | some last =>
      have member := same.mem_iff.1 (request found)
      cases otherFound : other.effective.getLast? with
      | none => exact absurd otherFound (otherMarked.effective_ne_nil (List.ne_nil_of_mem member))
      | some otherLast =>
          have below : last.ticket ≤ otherLast.ticket :=
            otherMarked.finished_le otherFound member
          have above : otherLast.ticket ≤ last.ticket :=
            marked.finished_le found (same.mem_iff.2 (request otherFound))
          have equal := otherMarked.finished_eq_of_ticket_eq member (request otherFound)
            (Nat.le_antisymm below above)
          exact congrArg some equal

/-- A replacement takes effect exactly if its ticket is larger than that of every
replacement that took effect before it.  Then the registry becomes its own, with
all later changes of the run on top; otherwise the registry stays as it is.  Once
all replacements have finished, the last effective one is the newest, and without
changes its projects are what is listed.  Without changes, two runs in which the
same replacements finished, in whatever order, list the same projects. -/
theorem newest_replacement_wins (reached : Reachable initial run) :
    (∀ ticket ∈ run.workspace.pending, ∀ replacement : Replacement,
      ((run.workspace.commitReplacement ticket replacement.replace).2 = true ↔
        ∀ completion ∈ run.effective, completion.ticket < ticket) ∧
      ((run.workspace.commitReplacement ticket replacement.replace).2 = true →
        (run.after (.finishReplacement ticket replacement)).workspace.registry =
          (replacement.replace run.workspace.registry).replay
            (laterChanges run.changes ticket)) ∧
      ((run.workspace.commitReplacement ticket replacement.replace).2 = false →
        (run.after (.finishReplacement ticket replacement)).workspace.registry =
          run.workspace.registry)) ∧
    (run.AllFinished → run.asked ≠ [] →
      ∃ last, run.effective.getLast? = some last ∧ last.ticket ∈ run.asked ∧
        (∀ ticket ∈ run.asked, ticket ≤ last.ticket) ∧
        (run.changes = [] → run.workspace.projects = last.replacement.projects)) ∧
    (∀ other : Run, Reachable initial other →
      run.changes = [] → other.changes = [] → run.finished.Perm other.finished →
      run.workspace.projects = other.workspace.projects) := by
  have marked := reached.watermarked
  refine ⟨?_, ?_, ?_⟩
  · intro ticket pending replacement
    rw [commitReplacement_snd]
    exact ⟨marked.isFresh_iff_newest pending,
      fun fresh => reached.finish_registry pending fresh replacement,
      finish_registry_of_stale _ _ replacement⟩
  · intro settled requested
    obtain ⟨last, newest, asked, largest⟩ := marked.exists_last settled requested
    refine ⟨last, newest, asked, largest, ?_⟩
    intro unchanged
    rw [reached.projects_of_unchanged unchanged, newest]
    rfl
  · intro other otherReached unchanged otherUnchanged same
    have last := marked.last_eq_of_perm otherReached.watermarked same
    rw [reached.projects_of_unchanged unchanged,
      otherReached.projects_of_unchanged otherUnchanged]
    have projects := congrArg (Option.map fun request => request.2.projects) last
    rw [Option.map_map, Option.map_map] at projects
    exact congrArg (Option.getD · initial.projects) projects

def olderDiscovery : Replacement := .discovered [sampleProject "/a/elm.json"]

def newerDiscovery : Replacement := .discovered [sampleProject "/b/elm.json"]

def twoDiscoveries (order : List (Ticket × Replacement)) : Run :=
  (start Workspace.empty).follow ([.requestReplacement, .requestReplacement] ++
    order.map fun request => .finishReplacement request.1 request.2)

private theorem twoDiscoveries_reachable {order : List (Ticket × Replacement)}
    (admitted : (start Workspace.empty).AdmitsAll ([.requestReplacement, .requestReplacement] ++
      order.map fun request => .finishReplacement request.1 request.2)) :
    Reachable Workspace.empty (twoDiscoveries order) :=
  (Reachable.start (withSettings_idle {})).follow admitted

theorem newest_replacement_wins_twoDiscoveries :
    (((twoDiscoveries [(1, olderDiscovery)]).workspace.commitReplacement 2
        newerDiscovery.replace).2 = true ∧
      ((twoDiscoveries [(1, olderDiscovery)]).after
          (.finishReplacement 2 newerDiscovery)).workspace.projects =
        [sampleProject "/b/elm.json"]) ∧
    (((twoDiscoveries [(2, newerDiscovery)]).workspace.commitReplacement 1
        olderDiscovery.replace).2 = false ∧
      ((twoDiscoveries [(2, newerDiscovery)]).after
          (.finishReplacement 1 olderDiscovery)).workspace.registry =
        (twoDiscoveries [(2, newerDiscovery)]).workspace.registry) ∧
    (∃ last, (twoDiscoveries [(2, newerDiscovery), (1, olderDiscovery)]).effective.getLast? =
        some last ∧ (∀ ticket ∈ [1, 2], ticket ≤ last.ticket) ∧
      (twoDiscoveries [(2, newerDiscovery), (1, olderDiscovery)]).workspace.projects =
        last.replacement.projects) ∧
    (twoDiscoveries [(1, olderDiscovery), (2, newerDiscovery)]).workspace.projects =
      (twoDiscoveries [(2, newerDiscovery), (1, olderDiscovery)]).workspace.projects := by
  have olderDone : Reachable Workspace.empty (twoDiscoveries [(1, olderDiscovery)]) :=
    twoDiscoveries_reachable (by decide)
  have newerDone : Reachable Workspace.empty (twoDiscoveries [(2, newerDiscovery)]) :=
    twoDiscoveries_reachable (by decide)
  have inOrder : Reachable Workspace.empty
      (twoDiscoveries [(1, olderDiscovery), (2, newerDiscovery)]) :=
    twoDiscoveries_reachable (by decide)
  have reversed : Reachable Workspace.empty
      (twoDiscoveries [(2, newerDiscovery), (1, olderDiscovery)]) :=
    twoDiscoveries_reachable (by decide)
  refine ⟨?_, ?_, ?_, ?_⟩
  · have fresh : ((twoDiscoveries [(1, olderDiscovery)]).workspace.commitReplacement 2
        newerDiscovery.replace).2 = true := by decide
    have registry :=
      ((newest_replacement_wins olderDone).1 2 (by decide) newerDiscovery).2.1 fresh
    have nothing : laterChanges (twoDiscoveries [(1, olderDiscovery)]).changes 2 = [] :=
      laterChanges_nil 2
    rw [nothing] at registry
    exact ⟨fresh, congrArg Registry.projects registry⟩
  · have stale : ((twoDiscoveries [(2, newerDiscovery)]).workspace.commitReplacement 1
        olderDiscovery.replace).2 = false := by decide
    exact ⟨stale, ((newest_replacement_wins newerDone).1 1 (by decide) olderDiscovery).2.2 stale⟩
  · obtain ⟨last, newest, _, largest, listed⟩ := (newest_replacement_wins reversed).2.1
      (by unfold AllFinished; decide) (by decide)
    exact ⟨last, newest, largest, listed rfl⟩
  · exact (newest_replacement_wins inOrder).2.2 _ reversed rfl rfl (List.Perm.swap _ _ _)

end ElmAtlas.Workspace.Run
