import ElmAtlas.Shell.Evaluation.Script
import ElmAtlas.Shell.Utility

/-!
# Starting programs

A program runs in a session of its own, which has the streams and the exported
variables of the session that starts it.
-/

namespace ElmAtlas.Shell

/-- Where programs are looked up when a script is not told where. -/
def standardPath : String :=
  "/usr/local/sbin:/usr/local/bin:/usr/sbin:/usr/bin:/sbin:/bin"

namespace Evaluate

def preset (session : Session) : Session :=
  let given (name value : String) : Octets × Variable :=
    (name.toList, { value := some value.toList })
  let always : List (Octets × Variable) :=
    [("IFS".toList, { value := some defaultSeparators }), given "OPTIND" "1", given "PPID" "4710",
      ("PWD".toList, { value := some (Octets.ofText session.disk.cwd.text), isExported := true })]
  let fallback := [given "PATH" standardPath, given "PS1" "# ", given "PS2" "> ", given "PS4" "+ "]
  let missing := fallback.filter fun entry => (session.binding? entry.1).isNone
  let set (session : Session) (entry : Octets × Variable) : Session :=
    session.bind entry.1 (some { entry.2 with
      isExported := entry.2.isExported ||
        ((session.binding? entry.1).map Variable.isExported).getD false })
  let named := { session with bindings := session.bindings.filter fun entry => isName entry.1 }
  (always ++ missing).foldl set named

def takeInput (descriptor : Nat) : Act Octets := do
  let session ← get
  let octets := (session.remaining? descriptor).getD []
  set (session.advance descriptor octets.length)
  return octets.filter (· != '\x00')

/-- The script in a file; a directory holds no commands. -/
def scriptIn (file : Octets) : Act Octets := do
  let disk := (← get).disk
  let path : Path := ⟨Octets.toText file⟩
  match Device.ofPath? (disk.absolute path), disk.node path with
  | some .null, _ => return []
  | some (.descriptor number), _ => takeInput number
  | none, .ok (.file content _) => return (Octets.ofBytes content).filter (· != '\x00')
  | none, .ok (.directory _) => return []
  | none, .error fault =>
      Redirect.refuseOpening file fault
      return []

variable (evaluate : Evaluator)

def topScript (echoes : Bool) (octets : Octets) : Act Unit := do
  let _ ← script evaluate false echoes octets

/-- A shell reads options; then it runs a script that is given in place, the one in
a file, or its input. -/
def shell (arguments : List Octets) : Act Unit := do
  modify preset
  let switched ← Act.switchAll true (arguments.length + 1) { rest := arguments }
  if switched.rest.isEmpty && !switched.isInPlace then
    modify fun session => session.setOption 's' true
  let readsInput ← Act.has 's'
  match switched.isInPlace, switched.rest with
  | true, [] => Act.failText "-c requires an argument"
  | true, given :: rest =>
      modify fun session =>
        { session with name := rest.headD session.name, arguments := rest.tail }
      topScript evaluate false given
      if readsInput then topScript evaluate true (← takeInput 0)
  | false, operands =>
      if readsInput then
        modify fun session => { session with arguments := operands }
        topScript evaluate true (← takeInput 0)
      else
        let file := operands.headD []
        let octets ← scriptIn file
        modify fun session => { session with name := file, arguments := operands.tail }
        topScript evaluate true octets

def splitOptions (text : Octets) : List Octets :=
  Text.splitNonempty (fun octet => octet == ' ' || octet == '\t' || octet == '\n') text

/-- Reads the options of `env` and changes the variables; what is left may begin
with assignments.  `fuel` bounds the options. -/
def changeEnvironment (name : Octets) : (fuel : Nat) → List Octets → Act (List Octets)
  | 0, arguments => return arguments
  | fuel + 1, arguments => do
      let clear : Act Unit := modify fun session => { session with bindings := [] }
      let forget (variableName : Octets) : Act Unit :=
        modify fun session => session.bind variableName none
      match arguments with
      | ['-'] :: rest =>
          clear
          changeEnvironment name fuel rest
      | ['-', '-'] :: rest => return rest
      | ('-' :: 'i' :: letters) :: rest =>
          clear
          changeEnvironment name fuel (if letters.isEmpty then rest else ('-' :: letters) :: rest)
      | ['-', 'u'] :: variableName :: rest =>
          forget variableName
          changeEnvironment name fuel rest
      | ('-' :: 'u' :: first :: more) :: rest =>
          forget (first :: more)
          changeEnvironment name fuel rest
      | ['-', 'S'] :: text :: rest => changeEnvironment name fuel (splitOptions text ++ rest)
      | ('-' :: 'S' :: first :: more) :: rest =>
          changeEnvironment name fuel (splitOptions (first :: more) ++ rest)
      | ['-', letter] :: [] =>
          if letter == 'u' || letter == 'S' then
            Utility.misuse name 125
              ("option requires an argument -- ".toList ++ Utility.quoted [letter])
          else Utility.misuse name 125 ("invalid option -- ".toList ++ Utility.quoted [letter])
          return []
      | ('-' :: letter :: _) :: _ =>
          Utility.misuse name 125 ("invalid option -- ".toList ++ Utility.quoted [letter])
          return []
      | _ => return arguments

def assignEnvironment : List Octets → Act (List Octets)
  | [] => return []
  | argument :: rest => do
      match Text.splitOnce '=' argument with
      | some (name, value) =>
          modify fun session =>
            session.bind name (some { value := some value, isExported := true })
          assignEnvironment rest
      | none => return argument :: rest

/-- Where programs are looked up when the environment does not say where. -/
def fallbackPath : String := "/bin:/usr/bin"

/-- `env`: runs a program in a changed environment, or shows the variables. -/
def inEnvironment (name : Octets) (arguments : List Octets) : Act (Option Call) := do
  Act.setStatus 0
  let changed ← changeEnvironment name (arguments.flatten.length + arguments.length + 1) arguments
  match ← assignEnvironment changed with
  | [] =>
      (← get).bindings.forM fun (name, binding) =>
        Act.emit (name ++ '=' :: binding.value.getD [] ++ ['\n'])
      return none
  | program :: rest =>
      let session ← get
      let searchPath := ((session.value? "PATH".toList).map Octets.toText).getD fallbackPath
      match Program.callOrRead session.disk searchPath (Octets.toText program) rest with
      | .ok call => return some call
      | .error fault =>
          Utility.complain name (Utility.quoted program ++ Utility.reason fault)
          if fault == .notFound && program.contains ' ' then
            Utility.complain name "use -[v]S to pass options in shebang lines".toList
          Act.setStatus (if fault == .notFound then 127 else 126)
          return none

/-- Runs a program in a session that is ready for it.  `fuel` bounds how often a
program hands over to another one. -/
def program : (fuel : Nat) → Call → Act Unit
  | 0, _ => Act.setStatus 126
  | fuel + 1, call => do
      match call.resident with
      | .shell =>
          modify fun session => { session with name := call.name }
          shell evaluate call.arguments
      | .env =>
          match ← inEnvironment call.name call.arguments with
          | some next => program fuel next
          | none => return ()
      | resident => Utility.run call.name resident call.arguments

def handoverLimit : Nat := 1000

def fresh (session : Session) : Session :=
  { disk := session.disk
    name := []
    bindings := session.environment.map fun (name, value) =>
      (name, { value := some value, isExported := true })
    streams := session.streams
    descriptors := session.descriptors
    mask := session.mask }

def start (call : Call) : Act Unit := do
  let finished ← apart evaluate fresh (program evaluate handoverLimit call)
  Act.setStatus finished.status

end Evaluate

end ElmAtlas.Shell
