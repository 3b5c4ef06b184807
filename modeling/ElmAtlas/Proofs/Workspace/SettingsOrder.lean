import ElmAtlas.Proofs.Workspace.Supersession

/-!
# The settings in the order of the requests

Updates change the settings at once and without a ticket.  A state that is loaded
brings settings of its own, once it takes effect, and a discovery leaves the
settings alone.  The settings are what the requests make of the initial ones in
the order in which they were made, whatever the order in which replacements
finish.  Two things have to be said, though.  A state that a newer replacement
has overtaken is discarded with its settings.  And an update counts as made after
a state was asked for only if the state is no longer pending by then.
-/

namespace ElmAtlas

namespace Replacement

/-- The settings that a replacement brings. -/
def settings? : Replacement → Option Settings
  | discovered _ => none
  | restored registry => some registry.settings

theorem replace_settings (replacement : Replacement) (registry : Registry) :
    (replacement.replace registry).settings =
      replacement.settings?.getD registry.settings := by
  cases replacement <;> rfl

end Replacement

namespace Workspace

/-- What is asked of the settings. -/
inductive SettingsRequest where
  /-- An update, with the replacements that were pending when it was made. -/
  | update (pending : List Ticket) (change : Settings → Settings)
  | replacement (ticket : Ticket)

namespace SettingsRequest

/-- The replacements that were pending during an update. -/
def overlapping : SettingsRequest → List Ticket
  | update pending _ => pending
  | replacement _ => []

/-- What a request makes of the settings if the given replacements count. -/
def settle (counting : List Completion) (settings : Settings) : SettingsRequest → Settings
  | update _ change => change settings
  | replacement ticket =>
      ((counting.find? (·.ticket == ticket)).bind (·.replacement.settings?)).getD settings

theorem settle_replacement_of_absent {counting : List Completion} {ticket : Ticket}
    (absent : ∀ completion ∈ counting, completion.ticket ≠ ticket) (settings : Settings) :
    settle counting settings (.replacement ticket) = settings := by
  have missing : counting.find? (·.ticket == ticket) = none := by
    simpa using absent
  simp [settle, missing]

/-- A finished discovery does not count. -/
theorem settle_concat_of_no_settings {completion : Completion}
    (none : completion.replacement.settings? = none) (counting : List Completion)
    (settings : Settings) (request : SettingsRequest) :
    settle (counting ++ [completion]) settings request = settle counting settings request := by
  cases request with
  | update pending change => rfl
  | replacement ticket =>
      cases found : counting.find? (·.ticket == ticket) with
      | some earlier => simp [settle, List.find?_append, found]
      | none =>
          by_cases same : completion.ticket = ticket
          · simp [settle, List.find?_append, found, same, none]
          · simp [settle, List.find?_append, found, same]

end SettingsRequest

namespace Run

variable {initial : Workspace} {run : Run} {log : List SettingsRequest}

def requestsOf (run : Run) : Event → List SettingsRequest
  | .updateSettings change => [.update run.workspace.pending change]
  | .requestReplacement => [.replacement run.workspace.requestReplacement.2]
  | .requestChange | .commitChange _ _ | .finishReplacement _ _ => []

/-- A run together with the log of what was asked of the settings, in the order of
the requests. -/
inductive Logs (initial : Workspace) : Run → List SettingsRequest → Prop where
  | start (idle : initial.Idle) : Logs initial (Run.start initial) []
  | step {run : Run} {log : List SettingsRequest} {event : Event}
      (logs : Logs initial run log) (admitted : run.Admits event) :
      Logs initial (run.after event) (log ++ run.requestsOf event)

theorem Logs.reachable (logs : Logs initial run log) : Reachable initial run := by
  induction logs with
  | start idle => exact .start idle
  | step _ admitted reached => exact reached.step admitted

theorem Reachable.exists_log (reached : Reachable initial run) :
    ∃ log, Logs initial run log := by
  induction reached with
  | start idle => exact ⟨[], .start idle⟩
  | step _ admitted induction =>
      obtain ⟨log, logs⟩ := induction
      exact ⟨_, logs.step admitted⟩

def logOf : Run → List Event → List SettingsRequest
  | _, [] => []
  | run, event :: events => run.requestsOf event ++ (run.after event).logOf events

theorem Logs.follow (logs : Logs initial run log) {events : List Event}
    (admitted : run.AdmitsAll events) :
    Logs initial (run.follow events) (log ++ run.logOf events) := by
  induction events generalizing run log with
  | nil =>
      rw [logOf, List.append_nil]
      exact logs
  | cons event events induction =>
      rw [logOf, ← List.append_assoc]
      exact induction (logs.step admitted.1) admitted.2

/-- A request that came while a replacement was pending. -/
def CameDuring (ticket : Ticket) : SettingsRequest → Prop
  | .update pending _ => ticket ∈ pending
  | .replacement later => ticket < later

/-- The invariant of the log: a replacement that is still pending was pending
during everything that was asked for after it. -/
def Overlaps (run : Run) (log : List SettingsRequest) : Prop :=
  ∀ ticket ∈ run.workspace.pending, ∃ before during,
    log = before ++ .replacement ticket :: during ∧
      ∀ request ∈ during, CameDuring ticket request

theorem Overlaps.mono {next : Run} (overlaps : run.Overlaps log)
    (pending : ∀ ticket ∈ next.workspace.pending, ticket ∈ run.workspace.pending) :
    next.Overlaps log :=
  fun ticket member => overlaps ticket (pending ticket member)

theorem Overlaps.concat (overlaps : run.Overlaps log) {request : SettingsRequest}
    (came : ∀ ticket ∈ run.workspace.pending, CameDuring ticket request) :
    run.Overlaps (log ++ [request]) := by
  intro ticket member
  obtain ⟨before, during, rfl, all⟩ := overlaps ticket member
  refine ⟨before, during ++ [request], by simp, ?_⟩
  intro other otherMember
  rcases List.mem_append.1 otherMember with old | new
  · exact all other old
  · obtain rfl := List.mem_singleton.1 new
    exact came ticket member

theorem Overlaps.afterRequestReplacement (overlaps : run.Overlaps log)
    (marked : Watermarked initial run) :
    (run.after .requestReplacement).Overlaps
      (log ++ [.replacement (run.workspace.requested + 1)]) := by
  have earlier : ∀ ticket ∈ run.workspace.pending,
      CameDuring ticket (.replacement (run.workspace.requested + 1)) := by
    intro ticket member
    exact Nat.lt_succ_of_le (marked.askedBound ticket (marked.pendingAsked ticket member)).2
  intro ticket member
  rcases List.mem_append.1 member with old | new
  · exact overlaps.concat earlier ticket old
  · obtain rfl := List.mem_singleton.1 new
    exact ⟨log, [], rfl, fun _ absent => (List.not_mem_nil absent).elim⟩

theorem Logs.overlaps (logs : Logs initial run log) : run.Overlaps log := by
  induction logs with
  | start idle =>
      intro ticket member
      rw [Run.start, idle.pending] at member
      exact (List.not_mem_nil member).elim
  | @step run log event logs admitted overlaps =>
      cases event with
      | requestChange =>
          rw [requestsOf, List.append_nil]
          exact overlaps
      | requestReplacement =>
          exact overlaps.afterRequestReplacement logs.reachable.watermarked
      | commitChange ticket change =>
          rw [requestsOf, List.append_nil]
          exact overlaps
      | finishReplacement ticket replacement =>
          rw [requestsOf, List.append_nil]
          refine overlaps.mono fun other member => ?_
          rw [after, finish_pending] at member
          exact (List.mem_filter.1 member).1
      | updateSettings change => exact overlaps.concat fun _ member => member

/-- The last state that took effect. -/
def lastLoad? (run : Run) : Option Completion :=
  run.effective.reverse.find? (·.replacement.settings?.isSome)

/-- No update was made while the last state to take effect was pending. -/
def Undisturbed (run : Run) (log : List SettingsRequest) : Prop :=
  ∀ load ∈ run.lastLoad?, ∀ request ∈ log, load.ticket ∉ request.overlapping

theorem Undisturbed.before {next : Run} {longer : List SettingsRequest}
    (undisturbed : next.Undisturbed longer) (same : next.lastLoad? = run.lastLoad?)
    (subset : ∀ request ∈ log, request ∈ longer) : run.Undisturbed log := by
  intro load isLast request member
  exact undisturbed load (same ▸ isLast) request (subset request member)

/-- The invariant of the settings. -/
def Settled (initial : Workspace) (run : Run) (log : List SettingsRequest) : Prop :=
  run.workspace.settings = log.foldl (SettingsRequest.settle run.effective) initial.settings

theorem Settled.afterRequestReplacement (settled : Settled initial run log)
    (marked : Watermarked initial run) :
    Settled initial (run.after .requestReplacement)
      (log ++ [.replacement (run.workspace.requested + 1)]) := by
  have absent : ∀ completion ∈ run.effective,
      completion.ticket ≠ run.workspace.requested + 1 := by
    intro completion member same
    have bound := Nat.le_trans (marked.completedBound completion (List.mem_filter.1 member).1)
      marked.committedBound
    exact Nat.not_succ_le_self _ (same ▸ bound)
  unfold Settled
  rw [List.foldl_append]
  exact settled.trans (SettingsRequest.settle_replacement_of_absent absent _).symm

/-- What came while an effective state was pending has left no trace. -/
private theorem Watermarked.foldl_during (marked : Watermarked initial run) {ticket : Ticket}
    (fresh : run.workspace.committed < ticket) {load : Completion}
    (same : load.ticket = ticket) {during : List SettingsRequest}
    (came : ∀ request ∈ during, CameDuring ticket request)
    (undisturbed : ∀ request ∈ during, ticket ∉ request.overlapping) (settings : Settings) :
    during.foldl (SettingsRequest.settle (run.effective ++ [load])) settings = settings := by
  induction during with
  | nil => rfl
  | cons request during induction =>
      obtain ⟨first, rest⟩ := List.forall_mem_cons.1 came
      obtain ⟨firstUndisturbed, restUndisturbed⟩ := List.forall_mem_cons.1 undisturbed
      rw [List.foldl_cons]
      cases request with
      | update pending change => exact absurd first firstUndisturbed
      | replacement later =>
          have absent : ∀ completion ∈ run.effective ++ [load],
              completion.ticket ≠ later := by
            intro completion member
            refine Nat.ne_of_lt ?_
            rcases List.mem_append.1 member with old | new
            · have bound := marked.completedBound completion (List.mem_filter.1 old).1
              exact Nat.lt_trans (Nat.lt_of_le_of_lt bound fresh) first
            · obtain rfl := List.mem_singleton.1 new
              exact same ▸ first
          rw [SettingsRequest.settle_replacement_of_absent absent]
          exact induction rest restUndisturbed

/-- A state that takes effect decides the settings. -/
private theorem Watermarked.foldl_load (marked : Watermarked initial run)
    (overlaps : run.Overlaps log)
    {ticket : Ticket} (pending : ticket ∈ run.workspace.pending)
    (fresh : run.workspace.isFresh ticket = true) {replacement : Replacement}
    {settings : Settings} (brings : replacement.settings? = some settings)
    (undisturbed : ∀ request ∈ log, ticket ∉ request.overlapping) (first : Settings) :
    log.foldl (SettingsRequest.settle (run.effective ++ [⟨ticket, replacement, true⟩])) first =
      settings := by
  obtain ⟨before, during, rfl, came⟩ := overlaps ticket pending
  have unfinished : run.effective.find? (·.ticket == ticket) = none := by
    rw [List.find?_eq_none]
    intro completion member same
    have done := marked.completedDone completion (List.mem_filter.1 member).1
    exact done (of_decide_eq_true same ▸ pending)
  have taken : ∀ earlier, SettingsRequest.settle
      (run.effective ++ [⟨ticket, replacement, true⟩]) earlier (.replacement ticket) =
        settings := by
    intro earlier
    simp [SettingsRequest.settle, List.find?_append, unfinished, brings]
  rw [List.foldl_append, List.foldl_cons, taken]
  refine marked.foldl_during ((marked.isFresh_iff pending).1 fresh) rfl came ?_ settings
  intro request member
  exact undisturbed request (by simp [member])

private theorem settings_afterFinish (run : Run) {ticket : Ticket}
    (fresh : run.workspace.isFresh ticket = true) (replacement : Replacement) :
    (run.after (.finishReplacement ticket replacement)).workspace.settings =
      replacement.settings?.getD run.workspace.settings := by
  simp [after, Workspace.settings, Workspace.finish_registry, fresh,
    Replacement.replace_settings]

theorem Settled.afterFinish (settled : run.Undisturbed log → Settled initial run log)
    (marked : Watermarked initial run) (overlaps : run.Overlaps log) {ticket : Ticket}
    (pending : ticket ∈ run.workspace.pending) (replacement : Replacement)
    (undisturbed : (run.after (.finishReplacement ticket replacement)).Undisturbed log) :
    Settled initial (run.after (.finishReplacement ticket replacement)) log := by
  have effective := effective_afterFinish run ticket replacement
  cases fresh : run.workspace.isFresh ticket with
  | false =>
      rw [fresh, if_neg Bool.false_ne_true] at effective
      have before : run.Undisturbed log :=
        undisturbed.before (by rw [lastLoad?, effective, lastLoad?]) fun _ member => member
      unfold Settled
      rw [effective, ← settled before]
      exact congrArg Registry.settings (finish_registry_of_stale _ _ replacement fresh)
  | true =>
      rw [fresh, if_pos rfl] at effective
      unfold Settled
      rw [effective, settings_afterFinish run fresh]
      cases brings : replacement.settings? with
      | none =>
          have before : run.Undisturbed log :=
            undisturbed.before (by simp [lastLoad?, effective, brings]) fun _ member => member
          have same : SettingsRequest.settle (run.effective ++ [⟨ticket, replacement, true⟩]) =
              SettingsRequest.settle run.effective := by
            funext earlier request
            exact SettingsRequest.settle_concat_of_no_settings brings run.effective earlier request
          rw [same]
          exact settled before
      | some settings =>
          refine (marked.foldl_load overlaps pending fresh brings ?_ initial.settings).symm
          refine undisturbed ⟨ticket, replacement, true⟩ ?_
          simp [lastLoad?, effective, brings]

theorem Logs.settled (logs : Logs initial run log) (undisturbed : run.Undisturbed log) :
    Settled initial run log := by
  induction logs with
  | start idle => rfl
  | @step run log event logs admitted settled =>
      cases event with
      | requestChange =>
          rw [requestsOf, List.append_nil] at undisturbed ⊢
          exact settled undisturbed
      | requestReplacement =>
          exact (settled
            (undisturbed.before rfl fun _ => List.mem_append_left _)).afterRequestReplacement
              logs.reachable.watermarked
      | commitChange ticket change =>
          rw [requestsOf, List.append_nil] at undisturbed ⊢
          exact (Registry.apply_settings _ change).trans (settled undisturbed)
      | finishReplacement ticket replacement =>
          rw [requestsOf, List.append_nil] at undisturbed ⊢
          exact Settled.afterFinish settled logs.reachable.watermarked logs.overlaps admitted
            replacement undisturbed
      | updateSettings change =>
          unfold Settled
          rw [requestsOf, List.foldl_append]
          exact congrArg change (settled (undisturbed.before rfl fun _ => List.mem_append_left _))

/-- A replacement that does not take effect was overtaken by a newer one. -/
theorem Watermarked.overtaken (marked : Watermarked initial run) {completion : Completion}
    (member : completion ∈ run.completions) (discarded : completion.effective = false) :
    ∃ newer ∈ run.effective, completion.ticket < newer.ticket := by
  have bound := marked.completedBound completion member
  obtain ⟨last, newest⟩ :=
    marked.exists_effective (marked.completedAsked completion member) bound
  obtain ⟨lastMember, lastEffective⟩ := List.mem_filter.1 (List.mem_of_getLast? newest)
  rw [marked.committed_eq_last newest] at bound
  refine ⟨last, List.mem_of_getLast? newest, Nat.lt_of_le_of_ne bound ?_⟩
  intro same
  have equal := List.inj_on_of_nodup_map marked.completedDistinct member lastMember same
  rw [equal, lastEffective] at discarded
  exact Bool.noConfusion discarded

/-- The settings are what the updates and the states that took effect make of the
initial ones, in the order in which they were asked for, unless an update was made
while the last of these states was pending.  A state that does not take effect was
overtaken by a newer replacement. -/
theorem settings_in_request_order (logs : Logs initial run log) :
    (∀ completion ∈ run.completions, completion.effective = false →
      ∃ newer ∈ run.effective, completion.ticket < newer.ticket) ∧
    (run.Undisturbed log →
      run.workspace.settings =
        log.foldl (SettingsRequest.settle run.effective) initial.settings) :=
  ⟨fun _ => logs.reachable.watermarked.overtaken, logs.settled⟩

def compilerAt (place : String) : Settings :=
  { elmCompilerPath := place }

/-- A state and a discovery are asked for in the background, in this order. -/
def loadThenDiscover (events : List Event) : List Event :=
  [.requestReplacement, .requestReplacement] ++ events

/-- The state is finished before an update is made, and the discovery after it. -/
def updatedBetween : List Event :=
  loadThenDiscover
    [.finishReplacement 1 (.restored ⟨[], compilerAt "/saved/elm"⟩),
      .updateSettings fun settings => { settings with isFormatOnSaveEnabled := true },
      .finishReplacement 2 (.discovered [])]

theorem settings_in_request_order_updatedBetween :
    ((start Workspace.empty).follow updatedBetween).workspace.settings =
      { elmCompilerPath := "/saved/elm", isFormatOnSaveEnabled := true } := by
  have logs : Logs Workspace.empty ((start Workspace.empty).follow updatedBetween)
      ([] ++ (start Workspace.empty).logOf updatedBetween) :=
    (Logs.start (withSettings_idle {})).follow (by decide)
  have undisturbed : ((start Workspace.empty).follow updatedBetween).Undisturbed
      ([] ++ (start Workspace.empty).logOf updatedBetween) := by
    unfold Undisturbed
    decide
  exact ((settings_in_request_order logs).2 undisturbed).trans (by decide)

/-- The discovery is finished before the state. -/
def overtakenState : List Event :=
  loadThenDiscover
    [.finishReplacement 2 (.discovered []),
      .finishReplacement 1 (.restored ⟨[], compilerAt "/saved/elm"⟩)]

/-- Not every state that was asked for leaves its settings: a discovery that was
asked for later and finished earlier discards them. -/
theorem overtaken_state_loses_settings :
    ¬∀ (initial : Workspace) (run : Run) (log : List SettingsRequest),
      Logs initial run log → run.AllFinished →
      run.workspace.settings =
        log.foldl (SettingsRequest.settle run.completions) initial.settings := by
  intro kept
  have logs : Logs Workspace.empty ((start Workspace.empty).follow overtakenState)
      ([] ++ (start Workspace.empty).logOf overtakenState) :=
    (Logs.start (withSettings_idle {})).follow (by decide)
  have undisturbed : ((start Workspace.empty).follow overtakenState).Undisturbed
      ([] ++ (start Workspace.empty).logOf overtakenState) := by
    unfold Undisturbed
    decide
  have settings := (logs.settled undisturbed).symm.trans
    (kept _ _ _ logs (by unfold AllFinished; decide))
  exact absurd settings (by decide)

end Run

end Workspace

end ElmAtlas
