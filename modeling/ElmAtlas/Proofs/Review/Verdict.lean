import ElmAtlas.Proofs.Text.Pieces
import ElmAtlas.Review

/-!
# What a run of the reviewer means

The reviewer is run at most once, and only for a file that has an owner.  What the run means
is told by a table with one line for each kind of answer: the program did not start, it said
nothing and succeeded or failed, or it said something.  Its exit status counts only if it said
nothing.
-/

namespace ElmAtlas

section Recording

variable {m : Type → Type} [Monad m]

/-- An invoker that also writes down the commands it is given. -/
def Invoker.recorded (invoke : Invoker m) : Invoker (StateT (List Command) m) := fun command => do
  modify (· ++ [command])
  StateT.lift (invoke command)

theorem Invoker.run_recorded [LawfulMonad m] (invoke : Invoker m) (command : Command)
    (calls : List Command) :
    (invoke.recorded command).run calls =
      (fun answer => (answer, calls ++ [command])) <$> invoke command := by
  simp [Invoker.recorded]

namespace Toolchain

variable {toolchain : Toolchain} {tool : Tool}

theorem run_of_unset (unset : toolchain.path? tool = none) (invoke : Invoker m)
    (arguments : List String) (project : Option Project) :
    toolchain.run invoke tool arguments project =
      pure (.error (.notConfigured tool (scopeOf project))) := by
  rw [run, require, unset]

/-- A tool that is set is run once, and it fails only if it does not start. -/
theorem run_of_set [LawfulMonad m] {path : Path} (set : toolchain.path? tool = some path)
    (invoke : Invoker m) (arguments : List String) (project : Option Project) :
    toolchain.run invoke tool arguments project =
      Except.mapError (.launch tool (scopeOf project) path) <$>
        invoke ⟨path, arguments, project.map Project.directory⟩ := by
  rw [run, require, set, map_eq_pure_bind]
  refine bind_congr fun answer => ?_
  cases answer <;> rfl

end Toolchain

end Recording

namespace Review

/-- What an answer means when the reviewer was run for a project. -/
inductive Means (owner : Project) (program : Path) :
    Except String ToolOutput → Except Fault (List Message) → Prop where
  | launch (cause : String) :
      Means owner program (.error cause)
        (.error (.tool (.launch .reviewer owner.presentableName program cause)))
  | silent {output : ToolOutput} (blank : Text.AreBlank output.stdout.toList)
      (success : output.status = some 0) : Means owner program (.ok output) (.ok [])
  | failed {output : ToolOutput} (blank : Text.AreBlank output.stdout.toList)
      (failure : output.status ≠ some 0) :
      Means owner program (.ok output)
        (.error (.tool (.failed .reviewer owner.presentableName output.status output.stderr)))
  | messages {output : ToolOutput} {messages : List Message}
      (spoken : ¬Text.AreBlank output.stdout.toList)
      (read : parseReport output.stdout = .ok messages) :
      Means owner program (.ok output) (.ok messages)
  | unreadable {output : ToolOutput} {reason : ReportFault}
      (spoken : ¬Text.AreBlank output.stdout.toList)
      (read : parseReport output.stdout = .error reason) :
      Means owner program (.ok output)
        (.error (.tool (.output .reviewer owner.presentableName reason.message)))

variable {owner : Project} {program : Path}

/-- No two lines of the table fit one answer. -/
theorem Means.unique {answer : Except String ToolOutput}
    {left right : Except Fault (List Message)} (first : Means owner program answer left)
    (second : Means owner program answer right) : left = right := by
  cases first with
  | launch cause =>
      cases second
      rfl
  | silent blank success =>
      cases second with
      | silent => rfl
      | failed _ failure => exact (failure success).elim
      | messages spoken => exact (spoken blank).elim
      | unreadable spoken => exact (spoken blank).elim
  | failed blank failure =>
      cases second with
      | silent _ success => exact (failure success).elim
      | failed => rfl
      | messages spoken => exact (spoken blank).elim
      | unreadable spoken => exact (spoken blank).elim
  | messages spoken read =>
      cases second with
      | silent blank => exact (spoken blank).elim
      | failed blank => exact (spoken blank).elim
      | messages _ again =>
          rw [read] at again
          rw [Except.ok.inj again]
      | unreadable _ other =>
          rw [read] at other
          cases other
  | unreadable spoken read =>
      cases second with
      | silent blank => exact (spoken blank).elim
      | failed blank => exact (spoken blank).elim
      | messages _ other =>
          rw [read] at other
          cases other
      | unreadable _ again =>
          rw [read] at again
          rw [Except.error.inj again]

/-- Whatever a failed run is blamed on, it is a run of the reviewer for the project. -/
theorem Means.names {answer : Except String ToolOutput} {fault : ToolFault}
    (means : Means owner program answer (.error (.tool fault))) :
    fault.tool = .reviewer ∧ fault.project = owner.presentableName := by
  cases means <;> exact ⟨rfl, rfl⟩

/-- Of an output that says something only what it says counts. -/
theorem Means.of_same_stdout {left right : ToolOutput} (same : left.stdout = right.stdout)
    (spoken : ¬Text.AreBlank left.stdout.toList) {result : Except Fault (List Message)}
    (means : Means owner program (.ok left) result) : Means owner program (.ok right) result := by
  cases means with
  | silent blank => exact (spoken blank).elim
  | failed blank => exact (spoken blank).elim
  | messages _ read =>
      rw [same] at spoken read
      exact .messages spoken read
  | unreadable _ read =>
      rw [same] at spoken read
      exact .unreadable spoken read

theorem parseReport_of_blank {output : String} (blank : Text.AreBlank output.toList) :
    parseReport output = .ok [] := by
  rw [parseReport, if_pos (Text.isBlankText_iff.2 blank)]

private theorem means_judge (owner : Project) (program : Path) (output : ToolOutput) :
    Means owner program (.ok output) (judge owner output) := by
  have success : output.isSuccess = true ↔ output.status = some 0 := beq_iff_eq
  rw [judge]
  by_cases blank : Text.AreBlank output.stdout.toList
  · rw [Text.isBlankText_iff.2 blank, parseReport_of_blank blank, Bool.and_true]
    by_cases succeeded : output.isSuccess = true
    · rw [if_neg (by simp [succeeded])]
      exact .silent blank (success.1 succeeded)
    · rw [if_pos (by simp [succeeded])]
      exact .failed blank (mt success.2 succeeded)
  · rw [if_neg (by simp [mt Text.isBlankText_iff.1 blank])]
    cases read : parseReport output.stdout with
    | ok messages => exact .messages blank read
    | error reason => exact .unreadable blank read

/-- What is made of the answer to the command. -/
def verdict (owner : Project) (program : Path) :
    Except String ToolOutput → Except Fault (List Message)
  | .ok output => judge owner output
  | .error cause => .error (.tool (.launch .reviewer owner.presentableName program cause))

theorem means_iff_verdict {answer : Except String ToolOutput}
    {result : Except Fault (List Message)} :
    Means owner program answer result ↔ verdict owner program answer = result := by
  have means : Means owner program answer (verdict owner program answer) := by
    cases answer with
    | ok output => exact means_judge owner program output
    | error cause => exact .launch cause
  constructor
  · intro other
    exact means.unique other
  · rintro rfl
    exact means

section Running

variable {m : Type → Type} [Monad m] {workspace : Workspace} {disk : Disk}
  {toolchain : Toolchain} {file : Path}

private theorem run_of_no_owner (none : workspace.projectForFile? disk file = none)
    (invoke : Invoker m) :
    run workspace disk toolchain invoke file = pure (.error (.noProject file)) := by
  rw [run, none]

variable [LawfulMonad m]

theorem run_of_unset (owns : workspace.projectForFile? disk file = some owner)
    (unset : toolchain.path? .reviewer = none) (invoke : Invoker m) :
    run workspace disk toolchain invoke file =
      pure (.error (.tool (.notConfigured .reviewer owner.presentableName))) := by
  rw [run, owns]
  dsimp only
  rw [Toolchain.run_of_unset unset, pure_bind]
  rfl

theorem run_of_set (owns : workspace.projectForFile? disk file = some owner)
    (set : toolchain.path? .reviewer = some program) (invoke : Invoker m) :
    run workspace disk toolchain invoke file =
      verdict owner program <$>
        invoke ⟨program, arguments toolchain, some owner.directory⟩ := by
  rw [run, owns]
  dsimp only
  rw [Toolchain.run_of_set set, bind_map_left, map_eq_pure_bind]
  refine bind_congr fun answer => ?_
  cases answer <;> rfl

/-- Without an owner the file has no project, and with an owner but without a reviewer the
reviewer is not configured; in both cases nothing is run.  Otherwise one command is run, in
the directory of the owner, and its answer means what the table says and nothing else.  If
the reviewer says something then neither its status nor its errors count, and every tool
that is blamed is the reviewer, run for the owner. -/
theorem run_means_once (workspace : Workspace) (disk : Disk) (toolchain : Toolchain)
    (invoke : Invoker m) (file : Path) (calls : List Command) :
    (workspace.projectForFile? disk file = none →
      (run workspace disk toolchain invoke.recorded file).run calls =
        pure (.error (.noProject file), calls)) ∧
    ∀ owner, workspace.projectForFile? disk file = some owner →
      (toolchain.path? .reviewer = none →
        (run workspace disk toolchain invoke.recorded file).run calls =
          pure (.error (.tool (.notConfigured .reviewer owner.presentableName)), calls)) ∧
      ∀ program, toolchain.path? .reviewer = some program →
        ∃ (command : Command) (outcome : Except String ToolOutput → Except Fault (List Message)),
          command = ⟨program,
            ["--report=json", "--namespace=elm-workspace"] ++
              (toolchain.path? .compiler).elim [] (fun compiler => ["--compiler", compiler.text]),
            some owner.directory⟩ ∧
          (run workspace disk toolchain invoke.recorded file).run calls =
            (fun answer => (outcome answer, calls ++ [command])) <$> invoke command ∧
          (∀ answer result, Means owner program answer result ↔ outcome answer = result) ∧
          (∀ left right : ToolOutput, left.stdout = right.stdout →
            ¬Text.AreBlank left.stdout.toList → outcome (.ok left) = outcome (.ok right)) ∧
          ∀ answer fault, outcome answer = .error (.tool fault) →
            fault.tool = .reviewer ∧ fault.project = owner.presentableName := by
  refine ⟨?_, fun owner owns => ⟨?_, fun program set => ?_⟩⟩
  · intro none
    rw [run_of_no_owner none, StateT.run_pure]
  · intro unset
    rw [run_of_unset owns unset, StateT.run_pure]
  · refine ⟨⟨program, arguments toolchain, some owner.directory⟩, verdict owner program, ?_, ?_,
      fun _ _ => means_iff_verdict, ?_, ?_⟩
    · unfold arguments Toolchain.path?
      cases toolchain.compiler <;> rfl
    · rw [run_of_set owns set, StateT.run_map, Invoker.run_recorded, Functor.map_map]
    · intro left right same spoken
      have means := means_iff_verdict.2 (rfl : verdict owner program (.ok left) = _)
      exact (means_iff_verdict.1 (means.of_same_stdout same spoken)).symm
    · intro answer fault blamed
      exact (means_iff_verdict.2 blamed).names

end Running

def reviewedProject : Project :=
  ⟨⟨"/w/a/elm.json"⟩, .current, .application ⟨0, 19, 1⟩, [⟨"src"⟩], .empty, .empty, ⟨"tests"⟩⟩

def reviewedWorkspace : Workspace :=
  { Workspace.empty with registry := ⟨[reviewedProject], {}⟩ }

def reviewedDisk : Disk :=
  ⟨.directory [], ⟨"/w"⟩⟩

def exampleToolchain : Toolchain where
  compiler := some ⟨"/bin/elm"⟩
  reviewer := some ⟨"/bin/review"⟩

def crashed : ToolOutput :=
  ⟨some 2, " \n", "crashed"⟩

/-- A reviewer that fails and prints a blank line. -/
theorem run_means_once_crashed :
    reviewedWorkspace.projectForFile? reviewedDisk ⟨"a/src/Main.elm"⟩ = some reviewedProject ∧
      ((run reviewedWorkspace reviewedDisk exampleToolchain
        (Invoker.recorded fun _ => (pure (.ok crashed) : Id _)) ⟨"a/src/Main.elm"⟩).run []).run =
        (.error (.tool (.failed .reviewer "a" (some 2) "crashed")),
          [⟨⟨"/bin/review"⟩,
            ["--report=json", "--namespace=elm-workspace", "--compiler", "/bin/elm"],
            some ⟨"/w/a"⟩⟩]) := by
  have owns : reviewedWorkspace.projectForFile? reviewedDisk ⟨"a/src/Main.elm"⟩ =
      some reviewedProject := by
    decide +kernel
  have name : reviewedProject.presentableName = "a" := by decide +kernel
  have directory : reviewedProject.directory = ⟨"/w/a"⟩ := by decide +kernel
  obtain ⟨_, set⟩ := (run_means_once reviewedWorkspace reviewedDisk exampleToolchain
    (fun _ => (pure (.ok crashed) : Id _)) ⟨"a/src/Main.elm"⟩ []).2 reviewedProject owns
  obtain ⟨command, outcome, rfl, ran, means, _⟩ := set ⟨"/bin/review"⟩ rfl
  have blank : Text.AreBlank crashed.stdout.toList := Text.isBlankText_iff.1 (by decide)
  have failed : outcome (.ok crashed) = _ := (means _ _).1 (.failed blank (by decide))
  rw [name] at failed
  rw [ran, directory]
  refine ⟨owns, ?_⟩
  exact congrArg (·, _) failed

end Review

end ElmAtlas
