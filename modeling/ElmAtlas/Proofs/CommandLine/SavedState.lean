import ElmAtlas.CommandLine.Run
import ElmAtlas.Proofs.Disk.Directories

/-!
# Command lines and the saved state

A command line that fails has not written a file.  An action that could not save its
workspace may have made the workspace's own directory; a completion script that could not be
written may have left the directories above it, and these may stand where a state would be
saved.  Most work is told when it is done, so a command line may also fail because it cannot
tell what it has done.  Actions that only tell something leave the disk as it was, as long as
the tools that they start do.
-/

namespace ElmAtlas

private theorem Path.names_ofNames {names : List String}
    (proper : ∀ name ∈ names, IsEntryName name) :
    (Path.ofNames names).names = names := by
  rw [Path.names, Path.components_ofNames proper, List.filterMap_cons_none rfl,
    List.filterMap_map]
  exact List.filterMap_some

namespace State

private theorem isEntryName_workspaceDirectory : IsEntryName workspaceDirectory := by
  decide

theorem isEntryName_fileName : IsEntryName "state.toml" := by
  decide

variable {names : List String}

private theorem isEntryName_of_mem_directory (proper : ∀ name ∈ names, IsEntryName name) :
    ∀ name ∈ names ++ [workspaceDirectory], IsEntryName name := by
  simpa [or_imp, forall_and] using ⟨proper, isEntryName_workspaceDirectory⟩

private theorem isEntryName_of_mem_file (proper : ∀ name ∈ names, IsEntryName name) :
    ∀ name ∈ names ++ [workspaceDirectory, "state.toml"], IsEntryName name := by
  simpa [or_imp, forall_and] using
    ⟨proper, isEntryName_workspaceDirectory, isEntryName_fileName⟩

private theorem file_ofNames (proper : ∀ name ∈ names, IsEntryName name) :
    file (Path.ofNames names) = Path.ofNames (names ++ [workspaceDirectory, "state.toml"]) := by
  rw [file, Path.child_ofNames proper isEntryName_workspaceDirectory,
    Path.child_ofNames (isEntryName_of_mem_directory proper) isEntryName_fileName,
    List.append_assoc]
  rfl

private theorem directory_file (proper : ∀ name ∈ names, IsEntryName name) :
    (file (Path.ofNames names)).directory = Path.ofNames (names ++ [workspaceDirectory]) := by
  rw [file, Path.child_ofNames proper isEntryName_workspaceDirectory]
  exact Path.directory_child ⟨_, isEntryName_of_mem_directory proper, rfl⟩ isEntryName_fileName

/-- Making the directory of a workspace changes nothing where a state is saved. -/
theorem sight?_file_of_gains {disk after : Disk} {root other : Path} (place : root.IsPlace)
    (isRoot : disk.isDirectory root = true) (otherPlace : other.IsPlace)
    (gains : Disk.GainsDirectories (file root).directory disk after) :
    after.sight? (file other) = disk.sight? (file other) := by
  obtain ⟨names, proper, rfl⟩ := place
  obtain ⟨otherNames, otherProper, rfl⟩ := otherPlace
  rw [directory_file proper] at gains
  rw [file_ofNames otherProper]
  apply Disk.sight?_ofNames_congr (isEntryName_of_mem_file otherProper) gains.sight?_top
  rcases gains.sight (otherNames ++ [workspaceDirectory, "state.toml"]) with
    same | ⟨vacant, _, leads⟩
  · exact same
  · exfalso
    have way := leads.of_ofNames (isEntryName_of_mem_directory proper)
    rcases List.prefix_concat_iff.1 way with whole | above
    · -- The directory of a workspace has another name than a state.
      have last := congrArg List.getLast? whole
      simp [workspaceDirectory] at last
    · obtain ⟨entries, found⟩ := Disk.isDirectory_iff.1 isRoot
      obtain ⟨_, _, _, reached⟩ := (Disk.node_ofNames proper).1 found
      have present := Node.sight?_isSome_of_prefix above (by rw [Node.sight?, reached]; rfl)
      rw [vacant] at present
      cases present

end State

/-- A state that could not be saved has left no more than the directories above it. -/
theorem Workspace.persist_failed {workspace : Workspace} {disk : Disk} {root : Path}
    {failure : Failure} (failed : (workspace.persist disk root).fault = some failure) :
    Disk.GainsDirectories (State.file root).directory disk
      (workspace.persist disk root).disk := by
  unfold Workspace.persist State.save Attempt.mapFault at failed ⊢
  dsimp only at failed ⊢
  obtain ⟨cause, refused, _⟩ := Option.map_eq_some_iff.1 failed
  exact Disk.replaceFile_failed refused

/-- After a request the disk is as it was. -/
def Leaves (disk : Disk) {α : Type} (request : StateM Disk α) : Prop :=
  (request.run disk).2 = disk

namespace Leaves

variable {disk : Disk} {α β : Type}

theorem pure (value : α) : Leaves disk (Pure.pure value) :=
  rfl

theorem bind {request : StateM Disk α} {next : α → StateM Disk β} (first : Leaves disk request)
    (second : ∀ value, Leaves disk (next value)) : Leaves disk (request >>= next) := by
  have unchanged : (request.run disk).2 = disk := first
  change ((next (request.run disk).1).run (request.run disk).2).2 = disk
  rw [unchanged]
  exact second _

theorem mapM {request : α → StateM Disk β} {values : List α}
    (each : ∀ value ∈ values, Leaves disk (request value)) :
    Leaves disk (values.mapM request) := by
  induction values with
  | nil => exact pure []
  | cons value values induction =>
      obtain ⟨first, rest⟩ := List.forall_mem_cons.1 each
      rw [List.mapM_cons]
      apply bind first
      intro result
      apply bind (induction rest)
      intro results
      exact pure (result :: results)

end Leaves

namespace Toolchain

variable {invoke : Invoker (StateM Disk)} {disk : Disk} {toolchain : Toolchain}

theorem run_leaves {tool : Tool} {arguments : List String} {project : Option Project}
    (harmless : ∀ path, toolchain.path? tool = some path →
      Leaves disk (invoke ⟨path, arguments, project.map Project.directory⟩)) :
    Leaves disk (toolchain.run invoke tool arguments project) := by
  unfold run require
  split
  · exact .pure _
  · rename_i path required
    split at required
    · rename_i configured found
      obtain rfl := Except.ok.inj required
      apply Leaves.bind (harmless _ found)
      intro answer
      cases answer with
      | ok output => exact .pure _
      | error cause => exact .pure _
    · cases required

/-- Probing the tools changes nothing if no tool does. -/
theorem report_leaves
    (harmless : ∀ tool path, toolchain.path? tool = some path →
      Leaves disk (invoke ⟨path, ["--version"], none⟩)) :
    Leaves disk (toolchain.report invoke) := by
  apply Leaves.mapM
  intro tool _
  apply Leaves.bind
  · apply Leaves.bind (run_leaves (harmless tool))
    intro answer
    cases answer with
    | ok output => exact .pure _
    | error fault => exact .pure _
  · intro version
    exact .pure _

/-- A search that finds no missing tool changes no tool. -/
private theorem suggest_of_nothing {lookup : String → Option Path} {tools : List Tool}
    {toolchain : Toolchain}
    (nothing : ∀ tool, toolchain.path? tool = none → lookup tool.programName = none) :
    suggest lookup tools toolchain = (toolchain, []) := by
  induction tools with
  | nil => rfl
  | cons tool tools induction =>
      rw [suggest]
      split
      · rename_i path unset found
        rw [nothing tool unset] at found
        cases found
      · exact induction

end Toolchain

namespace CommandLine

/-- The commands that an action starts on a workspace. -/
def Action.commands (disk : Disk) (workspace : Workspace) : Action → List Command
  | .review file _ =>
      let toolchain := Toolchain.ofSettings workspace.settings
      match workspace.projectForFile? disk (disk.absolute file), toolchain.path? .reviewer with
      | some project, some path =>
          [⟨path, Review.arguments toolchain, some project.directory⟩]
      | _, _ => []
  | .showTools =>
      Tool.all.filterMap fun tool =>
        ((Toolchain.ofSettings workspace.settings).path? tool).map (⟨·, ["--version"], none⟩)
  | _ => []

/-- The commands that a command line starts. -/
def launched (host : Host) (disk : Disk) (arguments : List String) : List Command :=
  match parse (host.environment.get? "ELM_WORKSPACE_ROOT") arguments with
  | .ok (.act root action) =>
      match Context.create host disk root with
      | .ok context =>
          match context.openWorkspace disk with
          | .ok workspace => action.commands disk workspace
          | .error _ => []
      | .error _ => []
  | _ => []

/-- The actions that only tell something. -/
def Action.isQuery : Action → Bool
  | .projects _ | .which _ | .review _ _ | .showTools | .state => true
  | .discover | .attach _ | .detach _ | .suggestTools | .setTools _ => false

/-- A search for tools that finds none of those that are not set. -/
def FindsNothing (context : Context) (disk : Disk) (workspace : Workspace) : Prop :=
  ∀ tool, (Toolchain.ofSettings workspace.settings).path? tool = none →
    ∀ searchPath, context.host.environment.get? "PATH" = some searchPath →
      ∀ candidate ∈ Path.candidates (Context.home? context.host.environment) searchPath
        tool.programName, disk.isExecutable candidate = false

private theorem Outlet.print_takesAll (taken pieces : List String) :
    Outlet.takesAll.print taken pieces = (taken ++ pieces, none) := by
  induction pieces generalizing taken with
  | nil => rw [Outlet.print, List.append_nil]
  | cons piece pieces induction =>
      rw [Outlet.print, Outlet.takesAll]
      dsimp only
      rw [induction, List.append_assoc]
      rfl

namespace Answer

variable {host : Host} {disk : Disk} {pieces : List String}

theorem failed_disk (diagnostic : Diagnostic) : (failed disk diagnostic).disk = disk := rfl

@[simp] theorem tell_disk : (tell host disk pieces).disk = disk := by
  unfold tell
  split <;> rfl

theorem tell_ending :
    (tell host disk pieces).ending = .done ∨
      ∃ reason, (tell host disk pieces).ending = .refused reason := by
  unfold tell
  split
  · exact .inl rfl
  · exact .inr ⟨_, rfl⟩

theorem tell_takingAll : (tell host.takingAll disk pieces).ending = .done := by
  rw [tell, Host.takingAll, Outlet.print_takesAll]

@[simp] theorem toOutcome_disk (answer : Answer) : (answer.toOutcome host).disk = answer.disk := by
  unfold toOutcome
  dsimp only
  split
  · rfl
  · split <;> rfl
  · rfl

theorem toOutcome_of_done {answer : Answer} (done : answer.ending = .done) :
    (answer.toOutcome host).code = 0 := by
  rw [toOutcome, done]

private theorem toOutcome_of_refused {answer : Answer} {reason : String}
    (refused : answer.ending = .refused reason) :
    (answer.toOutcome host).code = Outcome.abortCode := by
  rw [toOutcome, refused]

/-- How an answer that is no success has left the disk.  Either nothing was saved, and there
are at most directories above a path that were not there.  Or the work was done and could not
be told, and another answer, for which all is taken, has left the same disk. -/
inductive CutShort (path : Path) (disk : Disk) (answer taken : Answer) : Prop where
  | early (gains : Disk.GainsDirectories path disk answer.disk)
  | late {reason : String} (refused : answer.ending = .refused reason)
      (done : taken.ending = .done) (same : answer.disk = taken.disk)

theorem CutShort.of_disk {path : Path} {answer taken : Answer} (same : answer.disk = disk) :
    CutShort path disk answer taken := by
  refine .early ?_
  rw [same]
  exact .refl path disk

private theorem CutShort.withPrinted {path : Path} {answer taken : Answer}
    (cut : CutShort path disk answer taken) (printed other : List String) :
    CutShort path disk { answer with printed := printed } { taken with printed := other } := by
  cases cut with
  | early gains => exact .early gains
  | late refused done same => exact .late refused done same

theorem step_leaves {α : Type} {outcome : Except Failure α} {continuation : α → Answer}
    (leaves : ∀ value, outcome = .ok value → (continuation value).disk = disk) :
    (step disk outcome continuation).disk = disk := by
  unfold step
  split
  · exact leaves _ rfl
  · rfl

/-- What comes after a step may be cut short, and so may the step. -/
theorem step_cutShort {α : Type} {path : Path} {outcome : Except Failure α}
    {continuation taking : α → Answer}
    (continues : ∀ value, (continuation value).ending ≠ .done →
      CutShort path disk (continuation value) (taking value))
    (unfinished : (step disk outcome continuation).ending ≠ .done) :
    CutShort path disk (step disk outcome continuation) (step disk outcome taking) := by
  cases outcome with
  | ok value => exact continues value unfinished
  | error failure => exact .of_disk rfl

end Answer

open Answer (CutShort)

namespace Context

theorem create_eq_ok {host : Host} {disk : Disk} {root : Option Path} {context : Context}
    (created : create host disk root = .ok context) :
    context.root = disk.absolute (root.getD disk.cwd) ∧
      disk.isDirectory context.root = true ∧ context.host = host := by
  unfold create at created
  dsimp only at created
  split at created
  · rename_i isRoot
    obtain rfl := Except.ok.inj created
    dsimp only
    exact ⟨rfl, isRoot, rfl⟩
  · cases created

def takingAll (context : Context) : Context :=
  { context with host := context.host.takingAll }

private theorem create_takingAll {host : Host} {disk : Disk} {root : Option Path}
    {context : Context}
    (created : create host disk root = .ok context) :
    create host.takingAll disk root = .ok context.takingAll := by
  unfold create at created ⊢
  dsimp only at created ⊢
  split at created
  · rename_i isRoot
    obtain rfl := Except.ok.inj created
    exact if_pos isRoot
  · cases created

variable {context : Context} {disk : Disk}

private theorem takingAll_root : context.takingAll.root = context.root := rfl

private theorem takingAll_config : context.takingAll.config = context.config := rfl

private theorem takingAll_cache : context.takingAll.cache = context.cache := rfl

private theorem takingAll_host : context.takingAll.host = context.host.takingAll := rfl

private theorem takingAll_environment :
    context.takingAll.host.environment = context.host.environment := rfl

private theorem takingAll_threadRefusal :
    context.takingAll.host.threadRefusal = context.host.threadRefusal := rfl

theorem saving_of_saved {workspace : Workspace} (pieces : List String)
    (saved : (workspace.persist disk context.root).fault = none) :
    context.saving disk workspace pieces =
      .tell context.host (workspace.persist disk context.root).disk pieces := by
  unfold saving
  simp only [saved]

private theorem saving_of_unsaved {workspace : Workspace} {failure : Failure} (pieces : List String)
    (unsaved : (workspace.persist disk context.root).fault = some failure) :
    context.saving disk workspace pieces =
      .failed (workspace.persist disk context.root).disk (.ofFailure failure) := by
  unfold saving
  simp only [unsaved]

theorem saving_cutShort {workspace : Workspace} {pieces : List String}
    (unfinished : (context.saving disk workspace pieces).ending ≠ .done) :
    CutShort (State.file context.root).directory disk (context.saving disk workspace pieces)
      (context.takingAll.saving disk workspace pieces) := by
  cases outcome : (workspace.persist disk context.root).fault with
  | some failure =>
      rw [saving_of_unsaved pieces outcome]
      exact .early (by rw [Answer.failed_disk]; exact Workspace.persist_failed outcome)
  | none =>
      have taken : context.takingAll.saving disk workspace pieces =
          .tell context.host.takingAll (workspace.persist disk context.root).disk pieces := by
        rw [saving_of_saved pieces (by rw [takingAll_root, outcome]), takingAll_root,
          takingAll_host]
      rw [saving_of_saved pieces outcome] at unfinished ⊢
      rw [taken]
      rcases Answer.tell_ending with done | ⟨reason, refused⟩
      · exact absurd done unfinished
      · exact .late refused Answer.tell_takingAll (by rw [Answer.tell_disk, Answer.tell_disk])

theorem withWorkspace_leaves {action : Workspace → Answer}
    (leaves : ∀ workspace, context.openWorkspace disk = .ok workspace →
      (action workspace).disk = disk) : (context.withWorkspace disk action).disk = disk :=
  Answer.step_leaves leaves

/-- The workspace is opened in the same way whatever the streams take. -/
theorem withWorkspace_cutShort {action taking : Workspace → Answer} {path : Path}
    (acts : ∀ workspace, (action workspace).ending ≠ .done →
      CutShort path disk (action workspace) (taking workspace))
    (unfinished : (context.withWorkspace disk action).ending ≠ .done) :
    CutShort path disk (context.withWorkspace disk action)
      (context.takingAll.withWorkspace disk taking) :=
  Answer.step_cutShort acts unfinished

end Context

variable {context : Context} {disk : Disk} {workspace : Workspace}

theorem review_leaves {file : Path} {isJson : Bool}
    (harmless : ∀ command ∈ (Action.review file isJson).commands disk workspace,
      Leaves disk (context.host.invoke command)) :
    (review context disk workspace file isJson).disk = disk := by
  have leaves : Leaves disk (Review.run workspace disk (Toolchain.ofSettings workspace.settings)
      context.host.invoke (disk.absolute file)) := by
    unfold Review.run
    cases owner : workspace.projectForFile? disk (disk.absolute file) with
    | none => exact .pure _
    | some project =>
        apply Leaves.bind
        · apply Toolchain.run_leaves
          intro path configured
          apply harmless
          simp [Action.commands, owner, configured]
        · intro answer
          cases answer with
          | ok output => exact .pure _
          | error fault => exact .pure _
  unfold review
  dsimp only
  split
  rename_i outcome after ran
  have unchanged : after = disk := by
    rw [Leaves, ran] at leaves
    exact leaves
  subst unchanged
  cases outcome with
  | ok messages => exact Answer.tell_disk
  | error fault => rfl

theorem showTools_leaves
    (harmless : ∀ command ∈ Action.showTools.commands disk workspace,
      Leaves disk (context.host.invoke command)) :
    (showTools context disk workspace).disk = disk := by
  have leaves : Leaves disk
      ((Toolchain.ofSettings workspace.settings).report context.host.invoke) := by
    apply Toolchain.report_leaves
    intro tool path configured
    apply harmless
    refine List.mem_filterMap.2 ⟨tool, by cases tool <;> decide, ?_⟩
    rw [configured]
    rfl
  exact Answer.tell_disk.trans leaves

theorem suggestTools_leaves (nothing : FindsNothing context disk workspace) :
    (suggestTools context disk workspace).disk = disk := by
  unfold suggestTools
  dsimp only
  rw [Toolchain.suggest_of_nothing]
  · exact Answer.tell_disk
  · intro tool unset
    rw [Option.bind_eq_none_iff]
    intro searchPath given
    rw [Toolchain.findExecutable?, Option.map_eq_none_iff, List.find?_eq_none]
    intro candidate listed
    rw [nothing tool unset searchPath given candidate listed]
    decide

/-- An action that only tells something leaves the disk to the tools that it starts. -/
theorem act_query {action : Action} (query : action.isQuery = true)
    (harmless : ∀ workspace, context.openWorkspace disk = .ok workspace →
      ∀ command ∈ action.commands disk workspace, Leaves disk (context.host.invoke command)) :
    (act context disk action).disk = disk := by
  cases action with
  | projects isJson =>
      apply Context.withWorkspace_leaves
      intro workspace _
      exact Answer.tell_disk
  | which file =>
      apply Context.withWorkspace_leaves
      intro workspace _
      unfold which
      dsimp only
      split
      · rfl
      · exact Answer.tell_disk
  | review file isJson =>
      apply Context.withWorkspace_leaves
      intro workspace opened
      exact review_leaves (harmless workspace opened)
  | showTools =>
      apply Context.withWorkspace_leaves
      intro workspace opened
      exact showTools_leaves (harmless workspace opened)
  | state =>
      apply Context.withWorkspace_leaves
      intro workspace _
      exact Answer.tell_disk
  | discover => cases query
  | attach path => cases query
  | detach path => cases query
  | suggestTools => cases query
  | setTools change => cases query

theorem discover_cutShort (unfinished : (discover context disk).ending ≠ .done) :
    CutShort (State.file context.root).directory disk (discover context disk)
      (discover context.takingAll disk) := by
  unfold discover at unfinished ⊢
  simp only [Context.takingAll_root, Context.takingAll_config, Context.takingAll_cache,
    Context.takingAll_threadRefusal]
  refine Answer.step_cutShort (fun saved unfinished => ?_) unfinished
  generalize Workspace.spawnDiscover _ _ _ = spawned at unfinished ⊢
  obtain ⟨requested, task⟩ := spawned
  refine Answer.step_cutShort (fun result unfinished => ?_) unfinished
  obtain ⟨ticket, found⟩ := result
  exact Context.saving_cutShort unfinished

theorem attach_cutShort {path : Path}
    (unfinished : (attach context disk workspace path).ending ≠ .done) :
    CutShort (State.file context.root).directory disk (attach context disk workspace path)
      (attach context.takingAll disk workspace path) := by
  unfold attach at unfinished ⊢
  simp only [Context.takingAll_root, Context.takingAll_cache]
  generalize workspace.attach disk context.cache path = attached at unfinished ⊢
  obtain ⟨changed, fault | project⟩ := attached
  · exact .of_disk rfl
  · exact Context.saving_cutShort unfinished

theorem detach_cutShort {path : Path}
    (unfinished : (detach context disk workspace path).ending ≠ .done) :
    CutShort (State.file context.root).directory disk (detach context disk workspace path)
      (detach context.takingAll disk workspace path) := by
  unfold detach at unfinished ⊢
  simp only [Context.takingAll_root] at unfinished ⊢
  generalize workspace.detach disk _ = detached at unfinished ⊢
  obtain ⟨changed, wasAttached⟩ := detached
  cases wasAttached with
  | false => exact .of_disk rfl
  | true => exact Context.saving_cutShort unfinished

theorem suggestTools_cutShort
    (unfinished : (suggestTools context disk workspace).ending ≠ .done) :
    CutShort (State.file context.root).directory disk (suggestTools context disk workspace)
      (suggestTools context.takingAll disk workspace) := by
  unfold suggestTools at unfinished ⊢
  rw [Context.takingAll_environment]
  dsimp only at unfinished ⊢
  split
  · exact .of_disk Answer.tell_disk
  · rename_i some
    rw [if_neg some] at unfinished
    exact Context.saving_cutShort unfinished

/-- What is set is told before it is saved. -/
theorem setTools_cutShort {change : ToolchainChange}
    (unfinished : (setTools context disk workspace change).ending ≠ .done) :
    CutShort (State.file context.root).directory disk (setTools context disk workspace change)
      (setTools context.takingAll disk workspace change) := by
  unfold setTools at unfinished ⊢
  simp only [Context.takingAll_host, Answer.tell_takingAll] at unfinished ⊢
  generalize told : Answer.tell context.host disk _ = answer at unfinished ⊢
  have untouched : answer.disk = disk := by rw [← told, Answer.tell_disk]
  have ended : answer.ending = .done ∨ ∃ reason, answer.ending = .refused reason := by
    rw [← told]
    exact Answer.tell_ending
  rcases ended with done | ⟨reason, refused⟩
  · simp only [done] at unfinished ⊢
    have cut := Context.saving_cutShort unfinished
    exact cut.withPrinted _ _
  · simp only [refused]
    exact .of_disk untouched

/-- An action that is no success has saved nothing, or only could not tell what it had done. -/
theorem act_cutShort {action : Action}
    (harmless : ∀ workspace, context.openWorkspace disk = .ok workspace →
      ∀ command ∈ action.commands disk workspace, Leaves disk (context.host.invoke command))
    (unfinished : (act context disk action).ending ≠ .done) :
    CutShort (State.file context.root).directory disk (act context disk action)
      (act context.takingAll disk action) := by
  have unchanged : action.isQuery = true →
      CutShort (State.file context.root).directory disk (act context disk action)
        (act context.takingAll disk action) :=
    fun query => .of_disk (act_query query harmless)
  cases action with
  | projects isJson => exact unchanged rfl
  | which file => exact unchanged rfl
  | review file isJson => exact unchanged rfl
  | showTools => exact unchanged rfl
  | state => exact unchanged rfl
  | discover => exact discover_cutShort unfinished
  | attach path =>
      exact Context.withWorkspace_cutShort (fun _ => attach_cutShort) unfinished
  | detach path =>
      exact Context.withWorkspace_cutShort (fun _ => detach_cutShort) unfinished
  | suggestTools =>
      exact Context.withWorkspace_cutShort (fun _ => suggestTools_cutShort) unfinished
  | setTools change =>
      exact Context.withWorkspace_cutShort (fun _ => setTools_cutShort) unfinished

variable {host : Host} {arguments : List String}

private theorem launched_eq {root : Option Path} {action : Action}
    (parsed : parse (host.environment.get? "ELM_WORKSPACE_ROOT") arguments =
      .ok (.act root action))
    (created : Context.create host disk root = .ok context)
    (opened : context.openWorkspace disk = .ok workspace) :
    launched host disk arguments = action.commands disk workspace := by
  simp only [launched, parsed, created, opened]

private theorem stop_disk (halt : Halt) : (stop host disk arguments halt).disk = disk := by
  cases halt <;> rfl

/-- A command line that asks for an action stops before it has a context or acts in one. -/
theorem run_act (disk : Disk) {root : Option Path} {action : Action}
    (parsed : parse (host.environment.get? "ELM_WORKSPACE_ROOT") arguments =
      .ok (.act root action)) :
    (run host disk arguments).disk = disk ∨
    ∃ context, Context.create host disk root = .ok context ∧
      run host disk arguments = (act context disk action).toOutcome host ∧
      run host.takingAll disk arguments =
        (act context.takingAll disk action).toOutcome host.takingAll := by
  have parsedToo : parse (host.takingAll.environment.get? "ELM_WORKSPACE_ROOT") arguments =
      .ok (.act root action) := parsed
  cases created : Context.create host disk root with
  | error failure =>
      left
      simp only [run, parsed, created, Answer.toOutcome_disk, Answer.failed_disk]
  | ok context =>
      refine .inr ⟨context, rfl, ?_, ?_⟩
      · simp only [run, parsed, created]
      · simp only [run, parsedToo, Context.create_takingAll created]

/-- An action that fails leaves all states alone, or has only not been able to tell what it had
done. -/
private theorem run_act_failed {root : Option Path} {action : Action}
    (parsed : parse (host.environment.get? "ELM_WORKSPACE_ROOT") arguments =
      .ok (.act root action))
    (rooted : disk.cwd.isAbsolute = true)
    (harmless : ∀ command ∈ launched host disk arguments, Leaves disk (host.invoke command))
    (failed : (run host disk arguments).code ≠ 0) :
    (∀ other : Path, other.IsPlace →
      (run host disk arguments).disk.sight? (State.file other) =
        disk.sight? (State.file other)) ∨
    (run host disk arguments).code = Outcome.abortCode ∧
      (run host.takingAll disk arguments).code = 0 ∧
      (run host disk arguments).disk = (run host.takingAll disk arguments).disk := by
  rcases run_act disk parsed with unchanged | ⟨context, created, ran, ranTaking⟩
  · rw [unchanged]
    exact .inl fun _ _ => rfl
  · obtain ⟨absolute, isRoot, rfl⟩ := Context.create_eq_ok created
    have contextPlace : context.root.IsPlace := by
      rw [absolute]
      exact Path.isPlace_absolutize rooted
    have unfinished : (act context disk action).ending ≠ .done := by
      intro done
      rw [ran, Answer.toOutcome_of_done done] at failed
      exact failed rfl
    have quiet : ∀ workspace, context.openWorkspace disk = .ok workspace →
        ∀ command ∈ action.commands disk workspace,
          Leaves disk (context.host.invoke command) := by
      intro workspace opened
      rw [← launched_eq parsed created opened]
      exact harmless
    rw [ran, ranTaking, Answer.toOutcome_disk, Answer.toOutcome_disk]
    cases act_cutShort quiet unfinished with
    | early gains =>
        exact .inl fun other place => State.sight?_file_of_gains contextPlace isRoot place gains
    | late refused done same =>
        exact .inr ⟨Answer.toOutcome_of_refused refused, Answer.toOutcome_of_done done, same⟩

/-- A completion script that was not written has left directories above it; one that was
written could not be told. -/
private theorem complete_failed {dialect : Dialect} {output : Option Path}
    (failed : (complete host disk dialect output).code ≠ 0) :
    (complete host disk dialect output).disk = disk ∨
    (∃ path, output = some path ∧
      Disk.GainsDirectories path.directory disk (complete host disk dialect output).disk) ∨
    (complete host disk dialect output).code = Outcome.abortCode ∧
      (complete host.takingAll disk dialect output).code = 0 ∧
      (complete host disk dialect output).disk =
        (complete host.takingAll disk dialect output).disk := by
  cases output with
  | none =>
      left
      rw [complete, Answer.toOutcome_disk, Answer.tell_disk]
  | some path =>
      right
      unfold complete at failed ⊢
      dsimp only at failed ⊢
      cases written : (disk.replaceFile path (host.script dialect)).fault with
      | some failure =>
          left
          refine ⟨path, rfl, ?_⟩
          simp only [Answer.toOutcome_disk, Answer.failed_disk]
          exact Disk.replaceFile_failed written
      | none =>
          right
          simp only [written] at failed
          simp only [written, Host.takingAll, Outlet.takesAll]
          split at failed
          · exact absurd rfl failed
          · exact ⟨rfl, trivial, rfl⟩

/-- A completion script that fails to be printed or written leaves all states alone, but for a
directory above it, or has only not been told. -/
private theorem run_complete_failed {dialect : Dialect} {output : Option Path}
    (parsed : parse (host.environment.get? "ELM_WORKSPACE_ROOT") arguments =
      .ok (.complete dialect output))
    (failed : (run host disk arguments).code ≠ 0) :
    (∀ root : Path, root.IsPlace →
      (run host disk arguments).disk.sight? (State.file root) =
        disk.sight? (State.file root) ∨
      disk.sight? (State.file root) = none ∧
        (run host disk arguments).disk.sight? (State.file root) = some .directory ∧
        ∃ path, output = some path ∧
          disk.LeadsThrough path.directory (State.file root).names) ∨
    (run host disk arguments).code = Outcome.abortCode ∧
      (run host.takingAll disk arguments).code = 0 ∧
      (run host disk arguments).disk = (run host.takingAll disk arguments).disk := by
  have ran : run host disk arguments = complete host disk dialect output := by
    simp only [run, parsed]
  have parsedToo : parse (host.takingAll.environment.get? "ELM_WORKSPACE_ROOT") arguments =
      .ok (.complete dialect output) := parsed
  have ranTaking : run host.takingAll disk arguments =
      complete host.takingAll disk dialect output := by
    simp only [run, parsedToo]
  rw [ran] at failed ⊢
  rw [ranTaking]
  rcases complete_failed failed with unchanged | ⟨path, written, gains⟩ | untold
  · rw [unchanged]
    exact .inl fun root _ => .inl rfl
  · refine .inl fun root place => ?_
    obtain ⟨names, proper, rfl⟩ := place
    have fileProper := State.isEntryName_of_mem_file proper
    rw [State.file_ofNames proper, Path.names_ofNames fileProper]
    rcases gains.sight?_ofNames fileProper with same | ⟨vacant, made, leads⟩
    · exact .inl same
    · exact .inr ⟨vacant, made, path, written, leads⟩
  · exact .inr untold

/-- A command line that fails leaves every saved state as it was, and where there was none
there is none, unless a completion script was to be written below that place: then there
may be a directory.  The one other failure is that of a command line whose work was done and
which could not tell it: with streams that take everything it succeeds, and leaves the same
disk.  The actions that only tell something, and a search for tools that finds nothing, change
nothing at all.  Tools that are started are assumed not to write. -/
theorem failure_keeps_saved_state (rooted : disk.cwd.isAbsolute = true)
    (harmless : ∀ command ∈ launched host disk arguments, Leaves disk (host.invoke command)) :
    ((run host disk arguments).code ≠ 0 →
      (∀ root : Path, root.IsPlace →
        (run host disk arguments).disk.sight? (State.file root) =
          disk.sight? (State.file root) ∨
        disk.sight? (State.file root) = none ∧
          (run host disk arguments).disk.sight? (State.file root) = some .directory ∧
          ∃ dialect output,
            parse (host.environment.get? "ELM_WORKSPACE_ROOT") arguments =
              .ok (.complete dialect (some output)) ∧
            disk.LeadsThrough output.directory (State.file root).names) ∨
      (run host disk arguments).code = Outcome.abortCode ∧
        (run host.takingAll disk arguments).code = 0 ∧
        (run host disk arguments).disk = (run host.takingAll disk arguments).disk) ∧
    (∀ root action,
      parse (host.environment.get? "ELM_WORKSPACE_ROOT") arguments = .ok (.act root action) →
      action.isQuery = true → (run host disk arguments).disk = disk) ∧
    ∀ root,
      parse (host.environment.get? "ELM_WORKSPACE_ROOT") arguments =
        .ok (.act root .suggestTools) →
      (∀ context workspace, Context.create host disk root = .ok context →
        context.openWorkspace disk = .ok workspace → FindsNothing context disk workspace) →
      (run host disk arguments).disk = disk := by
  refine ⟨?_, ?_, ?_⟩
  · intro failed
    cases parsed : parse (host.environment.get? "ELM_WORKSPACE_ROOT") arguments with
    | error halt =>
        refine .inl fun root _ => .inl ?_
        simp only [run, parsed, stop_disk]
    | ok request =>
        cases request with
        | act given action =>
            refine (run_act_failed parsed rooted harmless failed).imp_left ?_
            exact fun kept root place => .inl (kept root place)
        | complete dialect output =>
            refine (run_complete_failed parsed failed).imp_left ?_
            intro kept root place
            rcases kept root place with same | ⟨vacant, made, path, rfl, leads⟩
            · exact .inl same
            · exact .inr ⟨vacant, made, dialect, path, rfl, leads⟩
  · intro root action parsed query
    rcases run_act disk parsed with unchanged | ⟨context, created, ran, _⟩
    · exact unchanged
    · rw [ran, Answer.toOutcome_disk]
      apply act_query query
      intro workspace opened
      rw [← launched_eq parsed created opened, (Context.create_eq_ok created).2.2]
      exact harmless
  · intro root parsed nothing
    rcases run_act disk parsed with unchanged | ⟨context, created, ran, _⟩
    · exact unchanged
    · rw [ran, Answer.toOutcome_disk, act]
      apply Context.withWorkspace_leaves
      intro workspace opened
      exact suggestTools_leaves (nothing context workspace created opened)

/-- A workspace with a saved state that names a reviewer. -/
def savedDisk : Disk :=
  let state := "settings = \x7belmReviewPath = \"gone\"\x7d\n"
  ⟨.directory [("w", .directory [
    (".elm-workspace", .directory [("state.toml", .file state.toUTF8 false)])])], ⟨"/w"⟩⟩

/-- A host on which there are no tools. -/
def bareHost : Host where
  environment := []
  invoke := fun _ => pure (.error "No such file or directory (os error 2)")
  script := fun dialect => s!"complete {dialect.name}\n"
  complaint := fun _ => "unexpected argument\n"
  help := fun _ => "Usage: elm-workspace <COMMAND>\n"

/-- Nothing can be printed. -/
def fullHost : Host :=
  { bareHost with output := fun _ _ => some "No space left on device (os error 28)" }

theorem failure_keeps_saved_state_detach :
    launched bareHost savedDisk ["toolchain", "show"] = [⟨⟨"gone"⟩, ["--version"], none⟩] ∧
    (run bareHost savedDisk ["toolchain", "show"]).disk = savedDisk ∧
    (run bareHost savedDisk ["detach", "a"]).code = 1 ∧
    savedDisk.isPresent (State.file ⟨"/w"⟩) = true ∧
    (run bareHost savedDisk ["detach", "a"]).disk.sight? (State.file ⟨"/w"⟩) =
      savedDisk.sight? (State.file ⟨"/w"⟩) := by
  have probes : launched bareHost savedDisk ["toolchain", "show"] =
      [⟨⟨"gone"⟩, ["--version"], none⟩] := by
    decide +kernel
  have failed : (run bareHost savedDisk ["detach", "a"]).code = 1 := by decide +kernel
  have saved : savedDisk.isPresent (State.file ⟨"/w"⟩) = true := by decide +kernel
  have rooted : savedDisk.cwd.isAbsolute = true := by decide
  have harmless (arguments : List String) :
      ∀ command ∈ launched bareHost savedDisk arguments,
        Leaves savedDisk (bareHost.invoke command) := fun _ _ => rfl
  obtain ⟨_, query, _⟩ := failure_keeps_saved_state rooted (harmless ["toolchain", "show"])
  obtain ⟨keeps, _⟩ := failure_keeps_saved_state rooted (harmless ["detach", "a"])
  refine ⟨probes, query none .showTools (by decide +kernel) rfl, failed, saved, ?_⟩
  rcases keeps (by rw [failed]; decide) with kept | ⟨aborted, _⟩
  · rcases kept ⟨"/w"⟩ ⟨["w"], by decide, rfl⟩ with same | ⟨vacant, _⟩
    · exact same
    · rw [Disk.sight?_eq_none.1 vacant] at saved
      cases saved
  · rw [failed] at aborted
    cases aborted

def bareDisk : Disk :=
  ⟨.directory [("w", .directory [])], ⟨"/w"⟩⟩

/-- A completion script that cannot be written has put a directory where a state would be
saved, and a discovery that cannot be told has saved a state. -/
theorem failed_commands_change_state :
    bareDisk.isPresent (State.file ⟨"/w"⟩) = false ∧
    (run bareHost bareDisk
      ["completions", "bash", "--output", ".elm-workspace/state.toml/x/"]).code = 1 ∧
    (run bareHost bareDisk
      ["completions", "bash", "--output", ".elm-workspace/state.toml/x/"]).disk.isDirectory
        (State.file ⟨"/w"⟩) = true ∧
    (run fullHost bareDisk ["discover"]).code = 101 ∧
    (run fullHost bareDisk ["discover"]).disk.isPresent (State.file ⟨"/w"⟩) = true := by
  decide +kernel

end CommandLine

end ElmAtlas
