import ElmAtlas.Command
import ElmAtlas.Environment
import ElmAtlas.Shell.Evaluation

/-!
# Launching commands

Commands are launched on a disk: the program is found there and runs there, with
nothing to read.  A command that cannot be started leaves the disk as it was.
-/

namespace ElmAtlas.Shell

def stepLimit : Nat := 100000

def nulFault : String :=
  "nul byte found in provided data"

def hasNul (text : String) : Bool :=
  text.toList.contains '\x00'

def isUnspeakable (command : Command) : Bool :=
  hasNul command.program.text || command.arguments.any hasNul ||
    (command.directory.map fun directory => hasNul directory.text).getD false

def enter (disk : Disk) (directory : Option Path) : Except DiskFault Disk := do
  match directory with
  | none => return disk
  | some path =>
      match ← disk.node path with
      | .directory _ => return { disk with cwd := disk.absolute path }
      | .file _ _ => .error .notADirectory

/-- A session with nothing to read and two channels to write to. -/
def firstSession (environment : Environment) (disk : Disk) : Session :=
  { disk := disk
    name := []
    bindings := environment.map fun (name, value) =>
      (Octets.ofText name, { value := some (Octets.ofText value), isExported := true })
    streams := #[.void, .channel [], .channel []]
    descriptors := [(0, 0), (1, 1), (2, 2)] }

def finish (environment : Environment) (disk : Disk) (call : Call) : Disk × ToolOutput :=
  let evaluate := run stepLimit
  let finished := Evaluate.toEnd evaluate
    (Evaluate.program evaluate Evaluate.handoverLimit call) (firstSession environment disk)
  let output : ToolOutput :=
    ⟨some finished.status, Octets.toText (Evaluate.writtenTo finished 1),
      Octets.toText (Evaluate.writtenTo finished 2)⟩
  (finished.disk, output)

/-- Launches a command; an error is the reason why it did not start. -/
def launch (environment : Environment) (disk : Disk) (command : Command) :
    Disk × Except String ToolOutput :=
  if isUnspeakable command then (disk, .error nulFault)
  else
    let started := do
      let inside ← enter disk command.directory
      let call ← Program.call inside environment.searchPath command.program.text
        (command.arguments.map Octets.ofText)
      return (inside, call)
    match started with
    | .error fault => (disk, .error fault.message)
    | .ok (inside, call) =>
        let (after, output) := finish environment inside call
        ({ after with cwd := disk.cwd }, .ok output)

def invoke (environment : Environment) : Invoker (StateM Disk) := fun command => do
  let (after, outcome) := launch environment (← get) command
  set after
  return outcome

end ElmAtlas.Shell
