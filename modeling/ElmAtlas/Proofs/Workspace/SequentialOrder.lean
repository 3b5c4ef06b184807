import ElmAtlas.Proofs.Workspace.Client
import ElmAtlas.Proofs.Workspace.Supersession

/-!
# Background work against one request after another

A client whose replacements finish in the background ends, once all of them have
finished, with the projects of a client who performs the same requests one after
another, with one exception.  A detachment of a manifest that is not attached at
that moment is not journaled.  If a replacement that was asked for before it
brings the manifest, nothing takes the manifest out again.  The theorem below
says exactly when the two lists of projects agree.
-/

namespace ElmAtlas.Workspace

def since (ticket : Ticket) (entries : List (Ticket × Change)) : List (Ticket × Change) :=
  entries.filter fun entry => ticket < entry.1

private theorem since_append (ticket : Ticket) (left right : List (Ticket × Change)) :
    since ticket (left ++ right) = since ticket left ++ since ticket right :=
  List.filter_append left right

private theorem since_concat {ticket : Ticket} {entry : Ticket × Change}
    (later : ticket < entry.1) (entries : List (Ticket × Change)) :
    since ticket (entries ++ [entry]) = since ticket entries ++ [entry] := by
  rw [since_append]
  simp [since, later]

private theorem since_eq_nil {ticket : Ticket} {entries : List (Ticket × Change)}
    (earlier : ∀ entry ∈ entries, entry.1 ≤ ticket) : since ticket entries = [] := by
  rw [since, List.filter_eq_nil_iff]
  intro entry member
  simpa using Nat.not_lt_of_le (earlier entry member)

/-- In the order of tickets, the changes after a later ticket come last among
those after an earlier one. -/
private theorem since_suffix {earlier later : Ticket} (ordered : earlier ≤ later)
    {entries : List (Ticket × Change)}
    (ascending : entries.Pairwise fun left right => left.1 < right.1) :
    ∃ between, since earlier entries = between ++ since later entries := by
  induction entries with
  | nil => exact ⟨[], rfl⟩
  | cons entry entries induction =>
      obtain ⟨above, restAscending⟩ := List.pairwise_cons.1 ascending
      by_cases afterLater : later < entry.1
      · -- From here on every change is after both tickets.
        have all : ∀ ticket ≤ later, since ticket (entry :: entries) = entry :: entries := by
          intro ticket bound
          rw [since, List.filter_eq_self]
          intro other member
          have otherAfter : later < other.1 := by
            rcases List.mem_cons.1 member with rfl | rest
            · exact afterLater
            · exact Nat.lt_trans afterLater (above other rest)
          exact decide_eq_true (Nat.lt_of_le_of_lt bound otherAfter)
        exact ⟨[], (all earlier ordered).trans (all later (Nat.le_refl _)).symm⟩
      · obtain ⟨between, suffix⟩ := induction restAscending
        have dropped : since later (entry :: entries) = since later entries := by
          simp [since, afterLater]
        rw [dropped]
        refine ⟨since earlier [entry] ++ between, ?_⟩
        calc
          since earlier (entry :: entries) =
              since earlier [entry] ++ since earlier entries :=
            since_append earlier [entry] entries
          _ = since earlier [entry] ++ between ++ since later entries := by
            rw [suffix, List.append_assoc]

theorem touches_since {ticket : Ticket} {entries : List (Ticket × Change)}
    {manifestPath : Path} :
    touches (since ticket entries) manifestPath = true ↔
      ∃ entry ∈ entries, ticket < entry.1 ∧ entry.2.concerns manifestPath = true := by
  simp only [touches_eq_true, since, List.mem_filter, decide_eq_true_eq, and_assoc]

namespace Client

variable {initial : Workspace} {client : Client}

theorem Reachable.idle (reached : Reachable initial client) : initial.Idle := by
  induction reached with
  | start idle => exact idle
  | attach _ _ _ _ idle => exact idle
  | detach _ _ _ idle => exact idle
  | launch _ _ idle => exact idle
  | finish _ _ idle => exact idle

/-- Calls and replacements stand in the order of their tickets. -/
structure Ordered (client : Client) : Prop where
  callsAscending : client.calls.Pairwise fun left right => left.1 < right.1
  callsBound : ∀ call ∈ client.calls, call.1 ≤ client.workspace.requested
  committedSublist : client.committed.Sublist client.calls
  replacementsAscending : client.replacements.Pairwise fun left right => left.1 < right.1
  replacementsBound : ∀ asked ∈ client.replacements, asked.1 ≤ client.workspace.requested
  backgroundSubset : ∀ asked ∈ client.background, asked ∈ client.replacements

private theorem pairwise_concat_ticket {α : Type} {entries : List (Ticket × α)} {ticket : Ticket}
    (ascending : entries.Pairwise fun left right => left.1 < right.1)
    (bound : ∀ entry ∈ entries, entry.1 ≤ ticket) (value : α) :
    (entries ++ [(ticket + 1, value)]).Pairwise fun left right => left.1 < right.1 := by
  rw [List.pairwise_append]
  refine ⟨ascending, List.pairwise_singleton _ _, ?_⟩
  intro left leftMember right rightMember
  obtain rfl := List.mem_singleton.1 rightMember
  exact Nat.lt_succ_of_le (bound left leftMember)

private theorem bound_concat_ticket {α : Type} {entries : List (Ticket × α)} {ticket : Ticket}
    (bound : ∀ entry ∈ entries, entry.1 ≤ ticket) (value : α) :
    ∀ entry ∈ entries ++ [(ticket + 1, value)], entry.1 ≤ ticket + 1 := by
  intro entry member
  rcases List.mem_append.1 member with old | new
  · exact Nat.le_succ_of_le (bound entry old)
  · obtain rfl := List.mem_singleton.1 new
    exact Nat.le_refl _

theorem Ordered.move {next : Client} (ordered : client.Ordered) (move : Move client next) :
    next.Ordered := by
  obtain ⟨callsAscending, callsBound, committedSublist, replacementsAscending,
    replacementsBound, backgroundSubset⟩ := ordered
  have callsLoose : ∀ call ∈ client.calls, call.1 ≤ client.workspace.requested + 1 :=
    fun call member => Nat.le_succ_of_le (callsBound call member)
  have replacementsLoose :
      ∀ asked ∈ client.replacements, asked.1 ≤ client.workspace.requested + 1 :=
    fun asked member => Nat.le_succ_of_le (replacementsBound asked member)
  cases move with
  | skip same =>
      exact ⟨callsAscending, callsLoose, committedSublist, replacementsAscending,
        replacementsLoose, backgroundSubset⟩
  | publish same accepted =>
      exact ⟨pairwise_concat_ticket callsAscending callsBound _,
        bound_concat_ticket callsBound _,
        committedSublist.append (List.Sublist.refl _), replacementsAscending,
        replacementsLoose, backgroundSubset⟩
  | miss same absent =>
      exact ⟨pairwise_concat_ticket callsAscending callsBound _,
        bound_concat_ticket callsBound _,
        committedSublist.trans (List.sublist_append_left _ _), replacementsAscending,
        replacementsLoose, backgroundSubset⟩
  | launch same =>
      refine ⟨callsAscending, callsLoose, committedSublist,
        pairwise_concat_ticket replacementsAscending replacementsBound _,
        bound_concat_ticket replacementsBound _, ?_⟩
      intro asked member
      rcases List.mem_append.1 member with old | new
      · exact List.mem_append_left _ (backgroundSubset asked old)
      · exact List.mem_append_right _ new
  | finish running =>
      refine ⟨callsAscending, ?_, committedSublist, replacementsAscending, ?_, ?_⟩
      · simpa [Client.finish] using callsBound
      · simpa [Client.finish] using replacementsBound
      · intro asked member
        exact backgroundSubset asked (List.mem_filter.1 member).1

theorem Reachable.ordered (reached : Reachable initial client) : client.Ordered := by
  refine reached.invariant Ordered ?_ fun _ ordered move => ordered.move move
  intro _
  exact ⟨.nil, by simp [Client.start], .refl _, .nil, by simp [Client.start],
    by simp [Client.start]⟩

theorem Ordered.committedAscending (ordered : client.Ordered) :
    client.committed.Pairwise fun left right => left.1 < right.1 :=
  ordered.callsAscending.sublist ordered.committedSublist

theorem Ordered.eq_or_lt (ordered : client.Ordered) {newest asked : Ticket × Replacement}
    (largest : client.replacements.getLast? = some newest)
    (member : asked ∈ client.replacements) : asked = newest ∨ asked.1 < newest.1 := by
  obtain ⟨earlier, split⟩ := List.getLast?_eq_some_iff.1 largest
  have ascending := ordered.replacementsAscending
  rw [split] at member ascending
  rcases List.mem_append.1 member with old | new
  · exact .inr ((List.pairwise_append.1 ascending).2.2 asked old newest (by simp))
  · exact .inl (List.mem_singleton.1 new)

/-- A client's calls are replayed as they stand: they were made in order. -/
theorem Reachable.finish_projects (reached : Reachable initial client) {ticket : Ticket}
    {replacement : Replacement} (running : (ticket, replacement) ∈ client.background)
    (fresh : client.workspace.isFresh ticket = true) :
    (client.workspace.finish ticket replacement).projects =
      ((replacement.replace client.workspace.registry).replay
        (since ticket client.committed)).projects := by
  obtain ⟨run, runReached, makes⟩ := reached.exists_run
  have pending : ticket ∈ run.workspace.pending := by
    rw [makes.workspace, makes.pending]
    exact List.mem_map.2 ⟨_, running, rfl⟩
  have registry := runReached.finish_registry pending
    (by rw [makes.workspace]; exact fresh) replacement
  rw [makes.workspace, makes.changes,
    laterChanges_eq_filter ticket reached.ordered.committedAscending] at registry
  exact congrArg Registry.projects registry

/-- The invariant of a client with regard to the newest replacement asked for. -/
structure Builds (initial : Workspace) (client : Client) (newest : Ticket × Replacement) :
    Prop where
  /-- A call in vain takes back no attachment since the newest replacement. -/
  harmless : (Registry.empty.replay (since newest.1 client.calls)).projects =
    (Registry.empty.replay (since newest.1 client.committed)).projects
  /-- What was attached since then is listed, whichever replacement is in force. -/
  shown : ∀ project ∈ (Registry.empty.replay (since newest.1 client.committed)).projects,
    project ∈ client.workspace.projects
  /-- The newest replacement in force has the calls since then on top. -/
  inForce : client.workspace.committed = newest.1 → client.workspace.projects =
    ((newest.2.replace initial.registry).replay (since newest.1 client.committed)).projects
  /-- One after another, all calls since then come on top of it. -/
  sequential : (client.requests.foldl Request.effect initial.registry).projects =
    ((newest.2.replace initial.registry).replay (since newest.1 client.calls)).projects

section Moves

variable {newest : Ticket × Replacement}

private theorem foldl_effect_concat (requests : List Request) (request : Request)
    (registry : Registry) :
    (requests ++ [request]).foldl Request.effect registry =
      request.effect (requests.foldl Request.effect registry) := by
  rw [List.foldl_append]
  rfl

theorem Builds.skip (builds : Builds initial client newest) {request : Request}
    (same : ∀ registry, request.effect registry = registry) :
    Builds initial (client.skip request) newest := by
  refine ⟨builds.harmless, builds.shown, builds.inForce, ?_⟩
  simp only [Client.skip, foldl_effect_concat, same]
  exact builds.sequential

theorem Builds.publish (builds : Builds initial client newest)
    (bound : newest.1 ≤ client.workspace.requested) {request : Request} {change : Change}
    (same : ∀ registry, request.effect registry = registry.apply change) :
    Builds initial (client.publish request change) newest := by
  have later : newest.1 < (client.workspace.requestChange.2, change).1 :=
    Nat.lt_succ_of_le bound
  constructor
  · simp only [Client.publish, since_concat later, Registry.replay_concat]
    exact Registry.apply_projects_congr builds.harmless change
  · simp only [Client.publish, since_concat later, Registry.replay_concat]
    exact Registry.mem_apply_of_subset builds.shown change
  · intro inForce
    simp only [Client.publish, since_concat later, Registry.replay_concat]
    exact Registry.apply_projects_congr (builds.inForce inForce) change
  · simp only [Client.publish, since_concat later, Registry.replay_concat,
      foldl_effect_concat, same]
    exact Registry.apply_projects_congr builds.sequential change

/-- A detachment in vain finds no attachment since the newest replacement, so it
takes none back; one after another it is a detachment like any other. -/
theorem Builds.miss (builds : Builds initial client newest)
    (bound : newest.1 ≤ client.workspace.requested) {request : Request}
    {manifestPath : Path}
    (same : ∀ registry, request.effect registry = registry.remove manifestPath)
    (absent : client.workspace.registry.isAttached manifestPath = false) :
    Builds initial (client.miss request manifestPath) newest := by
  have later : newest.1 < (client.workspace.requestChange.2, Change.detached manifestPath).1 :=
    Nat.lt_succ_of_le bound
  refine ⟨?_, builds.shown, builds.inForce, ?_⟩
  · have unlisted : (Registry.empty.replay
        (since newest.1 client.committed)).isAttached manifestPath = false := by
      refine List.any_eq_false.2 fun project member => ?_
      exact List.any_eq_false.1 absent project (builds.shown project member)
    simp only [Client.miss, since_concat later, Registry.replay_concat]
    calc
      ((Registry.empty.replay (since newest.1 client.calls)).apply
            (.detached manifestPath)).projects =
          ((Registry.empty.replay (since newest.1 client.committed)).apply
            (.detached manifestPath)).projects :=
        Registry.apply_projects_congr builds.harmless _
      _ = (Registry.empty.replay (since newest.1 client.committed)).projects :=
        congrArg Registry.projects (Registry.remove_of_not_attached unlisted)
  · simp only [Client.miss, since_concat later, Registry.replay_concat, foldl_effect_concat, same]
    exact Registry.apply_projects_congr builds.sequential (.detached manifestPath)

theorem Builds.launch (ordered : client.Ordered)
    (bound : client.workspace.committed ≤ client.workspace.requested) {request : Request}
    {replacement : Replacement}
    (same : ∀ registry, request.effect registry = replacement.replace registry) :
    Builds initial (client.launch request replacement)
      (client.workspace.requestReplacement.2, replacement) := by
  -- Nothing has been called for since the new ticket.
  have noCalls : since (client.workspace.requested + 1) client.calls = [] :=
    since_eq_nil fun call member => Nat.le_succ_of_le (ordered.callsBound call member)
  have noneCommitted : since (client.workspace.requested + 1) client.committed = [] :=
    since_eq_nil fun call member =>
      Nat.le_succ_of_le (ordered.callsBound call (ordered.committedSublist.subset member))
  constructor
  · simp [Client.launch, requestReplacement, noCalls, noneCommitted]
  · simp [Client.launch, requestReplacement, noneCommitted, Registry.empty]
  · intro inForce
    exact absurd inForce (Nat.ne_of_lt (Nat.lt_succ_of_le bound))
  · simp [Client.launch, requestReplacement, noCalls, same]

theorem Builds.finish (builds : Builds initial client newest)
    (reached : Reachable initial client)
    (largest : client.replacements.getLast? = some newest) {ticket : Ticket}
    {replacement : Replacement} (running : (ticket, replacement) ∈ client.background) :
    Builds initial (client.finish ticket replacement) newest := by
  have ordered := reached.ordered
  have place := ordered.eq_or_lt largest (ordered.backgroundSubset _ running)
  refine ⟨builds.harmless, ?_, ?_, builds.sequential⟩
  · intro project member
    have survivor : project ∈ (Registry.empty.replay
        (since newest.1 client.committed)).projects := member
    cases fresh : client.workspace.isFresh ticket with
    | true =>
        have before : ticket ≤ newest.1 := by
          rcases place with same | below
          · exact Nat.le_of_eq (congrArg Prod.fst same)
          · exact Nat.le_of_lt below
        obtain ⟨between, suffix⟩ := since_suffix before ordered.committedAscending
        have projects := reached.finish_projects running fresh
        rw [suffix] at projects
        exact projects ▸ Registry.mem_replay_append _ survivor
    | false =>
        have registry := finish_registry_of_stale _ _ replacement fresh
        simp only [Client.finish, Workspace.projects, registry]
        exact builds.shown project survivor
  · intro inForce
    simp only [Client.finish, finish_committed] at inForce
    cases fresh : client.workspace.isFresh ticket with
    | true =>
        have sameTicket : ticket = newest.1 := by simpa [fresh] using inForce
        rcases place with rfl | below
        · have projects := reached.finish_projects running fresh
          exact projects.trans (Registry.replay_projects_congr (by simp) _)
        · exact absurd sameTicket (Nat.ne_of_lt below)
    | false =>
        have registry := finish_registry_of_stale _ _ replacement fresh
        simp only [Client.finish, Workspace.projects, registry]
        exact builds.inForce (by simpa [fresh] using inForce)

end Moves

theorem Reachable.builds (reached : Reachable initial client) {newest : Ticket × Replacement}
    (largest : client.replacements.getLast? = some newest) :
    Builds initial client newest := by
  refine reached.invariant (fun client => ∀ newest,
    client.replacements.getLast? = some newest → Builds initial client newest)
    ?_ ?_ newest largest
  · intro _ newest largest
    simp [Client.start] at largest
  · intro client next reached builds move newest largest
    have ordered := reached.ordered
    cases move with
    | skip same => exact (builds newest largest).skip same
    | publish same accepted =>
        have bound := ordered.replacementsBound newest (List.mem_of_getLast? largest)
        exact (builds newest largest).publish bound same
    | miss same absent =>
        have bound := ordered.replacementsBound newest (List.mem_of_getLast? largest)
        exact (builds newest largest).miss bound same absent
    | launch same =>
        obtain rfl : (client.workspace.requestReplacement.2, _) = newest := by
          simpa [Client.launch] using largest
        obtain ⟨run, runReached, makes⟩ := reached.exists_run
        have bound := runReached.watermarked.committedBound
        rw [makes.workspace] at bound
        exact Builds.launch ordered bound same
    | finish running => exact (builds newest largest).finish reached largest running

/-- Before the first replacement is asked for, every request has had its effect. -/
theorem Reachable.registry_of_no_replacement (reached : Reachable initial client)
    (none : client.replacements = []) :
    client.workspace.registry = client.requests.foldl Request.effect initial.registry := by
  refine reached.invariant (fun client => client.replacements = [] →
    client.workspace.registry = client.requests.foldl Request.effect initial.registry) ?_ ?_ none
  · intro _ _
    rfl
  · intro client next reached registry move none
    cases move with
    | skip same =>
        simp only [Client.skip, foldl_effect_concat, same]
        exact registry none
    | publish same accepted =>
        simp only [Client.publish, foldl_effect_concat, same, ← registry none]
        rfl
    | miss same absent =>
        simp only [Client.miss, foldl_effect_concat, same, ← registry none]
        exact (Registry.remove_of_not_attached absent).symm
    | launch same => simp [Client.launch] at none
    | finish running =>
        have asked := reached.ordered.backgroundSubset _ running
        exact (List.ne_nil_of_mem asked none).elim

theorem Reachable.committed_eq_newest (reached : Reachable initial client)
    (done : client.background = []) {newest : Ticket × Replacement}
    (largest : client.replacements.getLast? = some newest) :
    client.workspace.committed = newest.1 := by
  obtain ⟨run, runReached, makes⟩ := reached.exists_run
  have marked := runReached.watermarked
  have asked : ∀ {request}, request ∈ client.replacements → request.1 ∈ run.asked := by
    intro request member
    rw [makes.asked]
    exact List.mem_map.2 ⟨request, member, rfl⟩
  have newestAsked := asked (List.mem_of_getLast? largest)
  have pending : run.workspace.pending = [] := by
    rw [makes.workspace, makes.pending, done]
    rfl
  rw [← makes.workspace]
  refine Nat.le_antisymm ?_ ?_
  · refine marked.committed_le (Nat.le_of_lt (marked.askedBound _ newestAsked).1) ?_
    intro ticket member
    rw [makes.asked] at member
    obtain ⟨request, requestMember, rfl⟩ := List.mem_map.1 member
    rcases reached.ordered.eq_or_lt largest requestMember with rfl | below
    · exact Nat.le_refl _
    · exact Nat.le_of_lt below
  · rcases marked.askedSettled _ newestAsked with waiting | settled
    · rw [pending] at waiting
      exact (List.not_mem_nil waiting).elim
    · exact settled

theorem filter_eq_filter_iff {projects : List Project} {left right : Project → Bool}
    (implies : ∀ project, left project = true → right project = true) :
    projects.filter left = projects.filter right ↔
      ∀ project ∈ projects, right project = true → left project = true := by
  constructor
  · intro same project member kept
    have keptLeft : project ∈ projects.filter left := by
      rw [same]
      exact List.mem_filter.2 ⟨member, kept⟩
    exact (List.mem_filter.1 keptLeft).2
  · intro converse
    refine List.filter_congr ?_
    intro project member
    exact Bool.eq_iff_iff.2 ⟨implies project, converse project member⟩

/-- With everything finished, the lists of projects agree with regard to the
newest replacement exactly if no call in vain was about one of its projects. -/
theorem Builds.projects_eq_iff {newest : Ticket × Replacement}
    (builds : Builds initial client newest) (ordered : client.Ordered)
    (inForce : client.workspace.committed = newest.1) :
    client.workspace.projects =
        (client.requests.foldl Request.effect initial.registry).projects ↔
      ∀ project ∈ newest.2.projects,
        touches (since newest.1 client.calls) project.manifestPath = true →
        touches (since newest.1 client.committed) project.manifestPath = true := by
  have fewer : ∀ project : Project,
      (!touches (since newest.1 client.calls) project.manifestPath) = true →
      (!touches (since newest.1 client.committed) project.manifestPath) = true := by
    intro project untouched
    rw [Bool.not_eq_true'] at untouched ⊢
    rw [← Bool.not_eq_true] at untouched ⊢
    intro touched
    obtain ⟨entry, member, later, concerned⟩ := touches_since.1 touched
    exact untouched (touches_since.2
      ⟨entry, ordered.committedSublist.subset member, later, concerned⟩)
  rw [builds.inForce inForce, builds.sequential, Registry.replay_projects,
    Registry.replay_projects _ (since newest.1 client.calls), builds.harmless,
    List.append_left_inj, Replacement.replace_projects, eq_comm, filter_eq_filter_iff fewer]
  simp only [Bool.not_eq_true', ← Bool.not_eq_true, not_imp_not]

/-- Once nothing is left in the background, a client has the projects of one who
performs the same requests one after another, exactly if every project of the
newest replacement that was called for after the request of the replacement was
also changed by such a call.  A call that changes nothing is a detachment of a
manifest that is not attached at that moment. -/
theorem projects_eq_sequential_iff (reached : Reachable initial client)
    (done : client.background = []) :
    client.workspace.projects = (initial.performAll client.requests).projects ↔
      ∀ newest, client.replacements.getLast? = some newest →
        ∀ project ∈ newest.2.projects,
          (∃ call ∈ client.calls, newest.1 < call.1 ∧
            call.2.concerns project.manifestPath = true) →
          ∃ call ∈ client.committed, newest.1 < call.1 ∧
            call.2.concerns project.manifestPath = true := by
  have performed : (initial.performAll client.requests).projects =
      (client.requests.foldl Request.effect initial.registry).projects :=
    congrArg Registry.projects (reached.idle.performAll_registry client.requests)
  rw [performed]
  cases largest : client.replacements.getLast? with
  | none =>
      have registry := reached.registry_of_no_replacement (List.getLast?_eq_none_iff.1 largest)
      exact iff_of_true (congrArg Registry.projects registry) (by simp)
  | some newest =>
      have builds := reached.builds largest
      have inForce := reached.committed_eq_newest done largest
      rw [builds.projects_eq_iff reached.ordered inForce]
      simp only [touches_since, Option.some.injEq, forall_eq']

/-- A disk with one project, at `a`. -/
def sampleDisk : Disk :=
  let manifest :=
    "\x7b\"type\": \"application\", \"source-directories\": [\"src\"], " ++
    "\"elm-version\": \"0.19.1\", " ++
    "\"dependencies\": \x7b\"direct\": \x7b\x7d, \"indirect\": \x7b\x7d\x7d, " ++
    "\"test-dependencies\": \x7b\"direct\": \x7b\x7d, \"indirect\": \x7b\x7d\x7d\x7d"
  let project := .directory [("elm.json", .file manifest.toUTF8 false)]
  ⟨.directory [("w", .directory [("a", project)])], ⟨"/w"⟩⟩

def discovering : Client :=
  (start Workspace.empty).launch (.discover sampleDisk .empty ⟨"."⟩)
    (.discovered (scan sampleDisk .empty ⟨"."⟩))

def afterDiscovery (client : Client) : Client :=
  client.finish 1 (.discovered (scan sampleDisk .empty ⟨"."⟩))

private theorem discovering_reachable : Reachable Workspace.empty discovering :=
  (Reachable.start (withSettings_idle {})).launch rfl

private theorem committed_eq_calls_attach (same : client.committed = client.calls) (disk : Disk)
    (cache : PackageCache) (path : Path) :
    (client.attach disk cache path).committed = (client.attach disk cache path).calls := by
  simp only [attach, same]

private theorem committed_eq_calls_detach (same : client.committed = client.calls) {disk : Disk}
    {path : Path} (found : (client.workspace.detach disk path).2 = true) :
    (client.detach disk path).committed = (client.detach disk path).calls := by
  simp only [detach, same, found, if_true]

/-- The project is attached and detached again before the discovery ends. -/
def changedMeanwhile : Client :=
  ((discovering.attach sampleDisk .empty ⟨"a"⟩).detach sampleDisk
    ⟨"a/elm.json"⟩).afterDiscovery

theorem projects_eq_sequential_changedMeanwhile :
    Reachable Workspace.empty changedMeanwhile ∧
    changedMeanwhile.background = [] ∧
    changedMeanwhile.workspace.projects =
      (Workspace.empty.performAll changedMeanwhile.requests).projects := by
  have reached : Reachable Workspace.empty changedMeanwhile :=
    ((discovering_reachable.attach sampleDisk .empty ⟨"a"⟩).detach sampleDisk
      ⟨"a/elm.json"⟩).finish (List.mem_singleton.2 rfl)
  have detached : ((discovering.attach sampleDisk .empty ⟨"a"⟩).workspace.detach sampleDisk
      ⟨"a/elm.json"⟩).2 = true := by decide +kernel
  -- The detachment was not in vain, so that all calls had an effect.
  have committed : changedMeanwhile.committed = changedMeanwhile.calls := by
    simp only [changedMeanwhile, afterDiscovery, finish]
    exact committed_eq_calls_detach (committed_eq_calls_attach rfl _ _ _) detached
  refine ⟨reached, rfl, (projects_eq_sequential_iff reached rfl).2 ?_⟩
  rw [committed]
  exact fun _ _ _ _ called => called

/-- The project is detached in vain before the discovery ends. -/
def detachedMeanwhile : Client :=
  (discovering.detach sampleDisk ⟨"a/elm.json"⟩).afterDiscovery

/-- A detachment during a discovery is lost if the manifest is not attached yet. -/
theorem detachment_lost_during_discovery :
    ¬∀ (initial : Workspace) (client : Client), Reachable initial client →
      client.background = [] →
      client.workspace.projects = (initial.performAll client.requests).projects := by
  intro agree
  have reached : Reachable Workspace.empty detachedMeanwhile :=
    (discovering_reachable.detach sampleDisk ⟨"a/elm.json"⟩).finish (List.mem_singleton.2 rfl)
  have different : detachedMeanwhile.workspace.projects.length ≠
      (Workspace.empty.performAll detachedMeanwhile.requests).projects.length := by
    decide +kernel
  exact different (congrArg List.length (agree _ _ reached rfl))

end Client

end ElmAtlas.Workspace
