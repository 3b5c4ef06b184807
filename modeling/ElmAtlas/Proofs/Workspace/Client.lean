import ElmAtlas.Proofs.Workspace.Run

/-!
# Clients

A client attaches and detaches manifests, one call after another, and in between
asks for discoveries and states to be loaded in the background.  These finish
whenever they are done.  A client is compared with one who performs the same
requests strictly one after another, so that nothing is ever in the background.
-/

namespace ElmAtlas.Workspace

/-- What a client asks for.  A request comes with the disk and the cache that it
will find when it reads them. -/
inductive Request where
  | attach (disk : Disk) (cache : PackageCache) (path : Path)
  | detach (disk : Disk) (path : Path)
  | discover (disk : Disk) (cache : PackageCache) (root : Path)
  | loadState (disk : Disk) (cache : PackageCache) (state : State)

namespace Request

def replacement? : Request → Option Replacement
  | discover disk cache root => some (.discovered (scan disk cache root))
  | loadState disk cache state => some (.restored (restore disk cache state))
  | attach _ _ _ | detach _ _ => none

/-- What a request makes of a registry that nobody else works on. -/
def effect (registry : Registry) : Request → Registry
  | attach disk cache path =>
      (readProject disk cache path).toOption.elim registry registry.insert
  | detach disk path => registry.remove (disk.absolute path)
  | discover disk cache root =>
      (Replacement.discovered (scan disk cache root)).replace registry
  | loadState disk cache state =>
      (Replacement.restored (restore disk cache state)).replace registry

theorem effect_attach_ok {disk : Disk} {cache : PackageCache} {path : Path}
    {project : Project} (read : readProject disk cache path = .ok project)
    (registry : Registry) :
    (attach disk cache path).effect registry = registry.apply (.attached project) := by
  rw [effect, read]
  rfl

theorem effect_attach_error {disk : Disk} {cache : PackageCache} {path : Path}
    {fault : AttachFault} (read : readProject disk cache path = .error fault)
    (registry : Registry) : (attach disk cache path).effect registry = registry := by
  rw [effect, read]
  rfl

theorem effect_of_replacement? {request : Request} {replacement : Replacement}
    (brings : request.replacement? = some replacement) (registry : Registry) :
    request.effect registry = replacement.replace registry := by
  cases request with
  | attach disk cache path => simp [replacement?] at brings
  | detach disk path => simp [replacement?] at brings
  | discover disk cache root =>
      obtain rfl := Option.some.inj brings
      rfl
  | loadState disk cache state =>
      obtain rfl := Option.some.inj brings
      rfl

end Request

def perform (workspace : Workspace) : Request → Workspace
  | .attach disk cache path => (workspace.attach disk cache path).1
  | .detach disk path => (workspace.detach disk path).1
  | .discover disk cache root => (workspace.discover disk cache root).1
  | .loadState disk cache state => (workspace.loadState disk cache state).1

def performAll (workspace : Workspace) (requests : List Request) : Workspace :=
  requests.foldl perform workspace

/-- An attachment is published only if the project can be read. -/
theorem attach_cases (workspace : Workspace) (disk : Disk) (cache : PackageCache)
    (path : Path) :
    (∃ project, readProject disk cache path = .ok project ∧
      workspace.attach disk cache path =
        (workspace.requestChange.1.commitChange workspace.requestChange.2
          (.attached project), .ok project)) ∨
    (∃ fault, readProject disk cache path = .error fault ∧
      workspace.attach disk cache path = (workspace.requestChange.1, .error fault)) := by
  unfold attach attachUnder
  cases readProject disk cache path with
  | ok project => exact .inl ⟨project, rfl, rfl⟩
  | error fault => exact .inr ⟨fault, rfl, rfl⟩

theorem detach_cases (workspace : Workspace) (disk : Disk) (path : Path) :
    (workspace.registry.isAttached (disk.absolute path) = true ∧
      workspace.detach disk path =
        (workspace.requestChange.1.commitChange workspace.requestChange.2
          (.detached (disk.absolute path)), true)) ∨
    (workspace.registry.isAttached (disk.absolute path) = false ∧
      workspace.detach disk path = (workspace.requestChange.1, false)) := by
  have attached : workspace.requestChange.1.registry = workspace.registry := rfl
  unfold detach
  simp only [attached]
  cases workspace.registry.isAttached (disk.absolute path) with
  | true => exact .inl ⟨rfl, rfl⟩
  | false => exact .inr ⟨rfl, rfl⟩

private theorem perform_replacement {request : Request} {replacement : Replacement}
    (brings : request.replacement? = some replacement) (workspace : Workspace) :
    workspace.perform request =
      workspace.requestReplacement.1.finish workspace.requestReplacement.2 replacement := by
  cases request with
  | attach disk cache path => simp [Request.replacement?] at brings
  | detach disk path => simp [Request.replacement?] at brings
  | discover disk cache root =>
      obtain rfl := Option.some.inj brings
      rfl
  | loadState disk cache state =>
      obtain rfl := Option.some.inj brings
      rfl

namespace Idle

variable {workspace : Workspace}

theorem afterRequestChange (idle : workspace.Idle) : workspace.requestChange.1.Idle :=
  ⟨idle.pending, idle.journal, Nat.le_succ_of_le idle.committed⟩

/-- With nothing pending a change is not journaled. -/
theorem afterCommitChange (idle : workspace.Idle) (ticket : Ticket) (change : Change) :
    (workspace.commitChange ticket change).Idle := by
  refine ⟨idle.pending, ?_, idle.committed⟩
  simp [commitChange, isAwaited, idle.pending, idle.journal]

private theorem afterReplacement (idle : workspace.Idle) (replacement : Replacement) :
    (workspace.requestReplacement.1.finish workspace.requestReplacement.2
      replacement).Idle := by
  refine ⟨?_, ?_, ?_⟩
  · simp [requestReplacement, idle.pending]
  · simp [requestReplacement, idle.journal]
  · rw [finish_committed, finish_requested]
    split
    · exact Nat.le_refl _
    · exact Nat.le_succ_of_le idle.committed

theorem registry_afterReplacement (idle : workspace.Idle) (replacement : Replacement) :
    (workspace.requestReplacement.1.finish workspace.requestReplacement.2
      replacement).registry = replacement.replace workspace.registry := by
  have fresh : workspace.requestReplacement.1.isFresh
      workspace.requestReplacement.2 = true :=
    decide_eq_true (Nat.le_succ_of_le idle.committed)
  have empty : workspace.requestReplacement.1.journal = [] := idle.journal
  rw [finish_registry, if_pos fresh, empty, laterChanges_nil]
  rfl

/-- An idle workspace stays idle under requests that are performed to their end,
and each has its effect on the registry. -/
theorem perform (idle : workspace.Idle) (request : Request) :
    (workspace.perform request).Idle ∧
      (workspace.perform request).registry = request.effect workspace.registry := by
  have replaces : ∀ replacement, request.replacement? = some replacement →
      (workspace.perform request).Idle ∧
        (workspace.perform request).registry = request.effect workspace.registry := by
    intro replacement brings
    rw [perform_replacement brings, Request.effect_of_replacement? brings]
    exact ⟨idle.afterReplacement replacement, idle.registry_afterReplacement replacement⟩
  cases request with
  | attach disk cache path =>
      rw [Workspace.perform]
      rcases attach_cases workspace disk cache path with
        ⟨project, read, result⟩ | ⟨fault, read, result⟩
      · rw [result, Request.effect_attach_ok read]
        exact ⟨idle.afterRequestChange.afterCommitChange _ _, rfl⟩
      · rw [result, Request.effect_attach_error read]
        exact ⟨idle.afterRequestChange, rfl⟩
  | detach disk path =>
      rw [Workspace.perform]
      rcases detach_cases workspace disk path with ⟨_, result⟩ | ⟨absent, result⟩
      · rw [result]
        exact ⟨idle.afterRequestChange.afterCommitChange _ _, rfl⟩
      · rw [result]
        exact ⟨idle.afterRequestChange, (Registry.remove_of_not_attached absent).symm⟩
  | discover disk cache root => exact replaces _ rfl
  | loadState disk cache state => exact replaces _ rfl

theorem performAll_registry (idle : workspace.Idle) (requests : List Request) :
    (workspace.performAll requests).registry =
      requests.foldl Request.effect workspace.registry := by
  induction requests generalizing workspace with
  | nil => rfl
  | cons request requests induction =>
      obtain ⟨nextIdle, nextRegistry⟩ := idle.perform request
      exact (induction nextIdle).trans (by rw [nextRegistry]; rfl)

end Idle

structure Client where
  workspace : Workspace
  requests : List Request
  /-- The changes called for: attachments of projects that could be read, and
  detachments. -/
  calls : List (Ticket × Change)
  /-- The calls with an effect.  A detachment has none if its manifest is not
  attached at that moment. -/
  committed : List (Ticket × Change)
  replacements : List (Ticket × Replacement)
  background : List (Ticket × Replacement)

namespace Client

def start (workspace : Workspace) : Client where
  workspace := workspace
  requests := []
  calls := []
  committed := []
  replacements := []
  background := []

def attach (client : Client) (disk : Disk) (cache : PackageCache) (path : Path) : Client :=
  let answer := client.workspace.attach disk cache path
  let attached := answer.2.toOption.toList.map fun project =>
    (client.workspace.requestChange.2, Change.attached project)
  { client with
    workspace := answer.1
    requests := client.requests ++ [.attach disk cache path]
    calls := client.calls ++ attached
    committed := client.committed ++ attached }

def detach (client : Client) (disk : Disk) (path : Path) : Client :=
  let answer := client.workspace.detach disk path
  let call := (client.workspace.requestChange.2, Change.detached (disk.absolute path))
  { client with
    workspace := answer.1
    requests := client.requests ++ [.detach disk path]
    calls := client.calls ++ [call]
    committed := client.committed ++ if answer.2 then [call] else [] }

/-- Asks for a replacement, which goes on in the background. -/
def launch (client : Client) (request : Request) (replacement : Replacement) : Client :=
  let asked := (client.workspace.requestReplacement.2, replacement)
  { client with
    workspace := client.workspace.requestReplacement.1
    requests := client.requests ++ [request]
    replacements := client.replacements ++ [asked]
    background := client.background ++ [asked] }

def finish (client : Client) (ticket : Ticket) (replacement : Replacement) : Client :=
  { client with
    workspace := client.workspace.finish ticket replacement
    background := client.background.filter (·.1 != ticket) }

/-- All clients of an idle workspace: requests come in any order, and what is in
the background finishes at any moment and in any order. -/
inductive Reachable (initial : Workspace) : Client → Prop where
  | start (idle : initial.Idle) : Reachable initial (start initial)
  | attach {client : Client} (reached : Reachable initial client) (disk : Disk)
      (cache : PackageCache) (path : Path) :
      Reachable initial (client.attach disk cache path)
  | detach {client : Client} (reached : Reachable initial client) (disk : Disk)
      (path : Path) : Reachable initial (client.detach disk path)
  | launch {client : Client} (reached : Reachable initial client) {request : Request}
      {replacement : Replacement} (brings : request.replacement? = some replacement) :
      Reachable initial (client.launch request replacement)
  | finish {client : Client} (reached : Reachable initial client) {ticket : Ticket}
      {replacement : Replacement} (running : (ticket, replacement) ∈ client.background) :
      Reachable initial (client.finish ticket replacement)

/-- A request without effect takes a ticket. -/
def skip (client : Client) (request : Request) : Client :=
  { client with
    workspace := client.workspace.requestChange.1
    requests := client.requests ++ [request] }

def publish (client : Client) (request : Request) (change : Change) : Client :=
  let call := (client.workspace.requestChange.2, change)
  { client with
    workspace := client.workspace.requestChange.1.commitChange call.1 change
    requests := client.requests ++ [request]
    calls := client.calls ++ [call]
    committed := client.committed ++ [call] }

/-- A detachment is called for in vain. -/
def miss (client : Client) (request : Request) (manifestPath : Path) : Client :=
  { client with
    workspace := client.workspace.requestChange.1
    requests := client.requests ++ [request]
    calls := client.calls ++
      [(client.workspace.requestChange.2, .detached manifestPath)] }

inductive Move (client : Client) : Client → Prop where
  | skip {request : Request} (same : ∀ registry, request.effect registry = registry) :
      Move client (client.skip request)
  | publish {request : Request} {change : Change}
      (same : ∀ registry, request.effect registry = registry.apply change)
      (accepted : client.workspace.registry.accepts change = true) :
      Move client (client.publish request change)
  | miss {request : Request} {manifestPath : Path}
      (same : ∀ registry, request.effect registry = registry.remove manifestPath)
      (absent : client.workspace.registry.isAttached manifestPath = false) :
      Move client (client.miss request manifestPath)
  | launch {request : Request} {replacement : Replacement}
      (same : ∀ registry, request.effect registry = replacement.replace registry) :
      Move client (client.launch request replacement)
  | finish {ticket : Ticket} {replacement : Replacement}
      (running : (ticket, replacement) ∈ client.background) :
      Move client (client.finish ticket replacement)

private theorem attach_move (client : Client) (disk : Disk) (cache : PackageCache) (path : Path) :
    Move client (client.attach disk cache path) := by
  rcases attach_cases client.workspace disk cache path with
    ⟨project, read, result⟩ | ⟨fault, read, result⟩
  · have published : client.attach disk cache path =
        client.publish (.attach disk cache path) (.attached project) := by
      simp only [attach, result]
      rfl
    rw [published]
    exact .publish (Request.effect_attach_ok read) rfl
  · have skipped : client.attach disk cache path =
        client.skip (.attach disk cache path) := by
      simp only [attach, result, Except.toOption, Option.toList_none, List.map_nil,
        List.append_nil]
      rfl
    rw [skipped]
    exact .skip (Request.effect_attach_error read)

private theorem detach_move (client : Client) (disk : Disk) (path : Path) :
    Move client (client.detach disk path) := by
  rcases detach_cases client.workspace disk path with
    ⟨attached, result⟩ | ⟨absent, result⟩
  · have published : client.detach disk path =
        client.publish (.detach disk path) (.detached (disk.absolute path)) := by
      simp only [detach, result]
      rfl
    rw [published]
    exact .publish (fun _ => rfl) attached
  · have missed : client.detach disk path =
        client.miss (.detach disk path) (disk.absolute path) := by
      simp only [detach, result, Bool.false_eq_true, if_false, List.append_nil]
      rfl
    rw [missed]
    exact .miss (fun _ => rfl) absent

theorem Reachable.invariant {initial : Workspace} {client : Client}
    (reached : Reachable initial client) (holds : Client → Prop)
    (begins : initial.Idle → holds (Client.start initial))
    (keeps : ∀ {client next : Client}, Reachable initial client → holds client →
      Move client next → holds next) : holds client := by
  induction reached with
  | start idle => exact begins idle
  | attach reached disk cache path induction =>
      exact keeps reached induction (attach_move _ disk cache path)
  | detach reached disk path induction =>
      exact keeps reached induction (detach_move _ disk path)
  | launch reached brings induction =>
      exact keeps reached induction (.launch (Request.effect_of_replacement? brings))
  | finish reached running induction => exact keeps reached induction (.finish running)

/-- The run that a client makes of its workspace. -/
structure Makes (client : Client) (run : Run) : Prop where
  workspace : run.workspace = client.workspace
  changes : run.changes = client.committed
  asked : run.asked = client.replacements.map Prod.fst
  pending : client.workspace.pending = client.background.map Prod.fst

theorem Makes.publish {client : Client} {run : Run} (makes : client.Makes run)
    {initial : Workspace} (reached : Run.Reachable initial run) (request : Request)
    {change : Change} (accepted : client.workspace.registry.accepts change = true) :
    ∃ next, Run.Reachable initial next ∧ (client.publish request change).Makes next := by
  have requested : Run.Reachable initial (run.after .requestChange) := reached.step trivial
  have admitted : (run.after .requestChange).Admits
      (.commitChange run.workspace.requestChange.2 change) := by
    refine ⟨List.mem_append_right _ (List.mem_singleton.2 rfl), ?_⟩
    rw [← makes.workspace] at accepted
    exact accepted
  refine ⟨_, requested.step admitted, ?_, ?_, makes.asked, makes.pending⟩
  · simp only [Run.after, Client.publish, makes.workspace]
  · simp only [Run.after, Client.publish, makes.workspace, makes.changes]

theorem Makes.launch {client : Client} {run : Run} (makes : client.Makes run)
    {initial : Workspace} (reached : Run.Reachable initial run) (request : Request)
    (replacement : Replacement) :
    ∃ next, Run.Reachable initial next ∧ (client.launch request replacement).Makes next := by
  have admitted : run.Admits .requestReplacement := trivial
  refine ⟨_, reached.step admitted, ?_, makes.changes, ?_, ?_⟩
  · simp only [Run.after, Client.launch, makes.workspace]
  · simp [Run.after, Client.launch, makes.workspace, makes.asked]
  · simp [Client.launch, Workspace.requestReplacement, makes.pending]

theorem Makes.finish {client : Client} {run : Run} (makes : client.Makes run)
    {initial : Workspace} (reached : Run.Reachable initial run) {ticket : Ticket}
    {replacement : Replacement} (running : (ticket, replacement) ∈ client.background) :
    ∃ next, Run.Reachable initial next ∧ (client.finish ticket replacement).Makes next := by
  have admitted : run.Admits (.finishReplacement ticket replacement) := by
    have pending : ticket ∈ client.workspace.pending := by
      rw [makes.pending]
      exact List.mem_map.2 ⟨_, running, rfl⟩
    rw [← makes.workspace] at pending
    exact pending
  refine ⟨_, reached.step admitted, ?_, makes.changes, makes.asked, ?_⟩
  · simp only [Run.after, Client.finish, makes.workspace]
  · simp [Client.finish, makes.pending, List.filter_map, Function.comp_def]

theorem Reachable.exists_run {initial : Workspace} {client : Client}
    (reached : Reachable initial client) :
    ∃ run, Run.Reachable initial run ∧ client.Makes run := by
  refine reached.invariant (fun client => ∃ run, Run.Reachable initial run ∧ client.Makes run)
    ?_ ?_
  · intro idle
    exact ⟨_, .start idle, rfl, rfl, rfl, idle.pending⟩
  · rintro client next _ ⟨run, runReached, makes⟩ move
    -- Both a skipped request and a missed one only take a ticket.
    have ticketTaken : Run.Reachable initial (run.after .requestChange) :=
      runReached.step trivial
    have taken : (run.after .requestChange).workspace = client.workspace.requestChange.1 := by
      rw [← makes.workspace]
      rfl
    cases move with
    | skip same => exact ⟨_, ticketTaken, taken, makes.changes, makes.asked, makes.pending⟩
    | publish same accepted => exact makes.publish runReached _ accepted
    | miss same absent =>
        exact ⟨_, ticketTaken, taken, makes.changes, makes.asked, makes.pending⟩
    | launch same => exact makes.launch runReached _ _
    | finish running => exact makes.finish runReached running

end Client

end ElmAtlas.Workspace
