import ElmAtlas.Shell.Builtin.Output
import ElmAtlas.Shell.Evaluation.Start

/-!
# Built-in commands

Most built-in commands only change the session.  Those here also run scripts or
programs, or tell what other commands are.
-/

namespace ElmAtlas.Shell

def regularCommands : List String :=
  ["[", "alias", "bg", "cd", "chdir", "command", "echo", "false", "fg", "getopts", "hash", "jobs",
    "kill", "printf", "pwd", "read", "test", "true", "type", "ulimit", "umask", "unalias", "wait"]

inductive Kind where
  | builtin (name : String)
  | function (body : Form)
  | program

namespace Evaluate

def kindOf (session : Session) (skipsFunctions : Bool) (name : Octets) : Kind :=
  let text := String.ofList name
  let function := if skipsFunctions then none else session.functions.lookup name
  if specialCommands.contains text then .builtin text
  else
    match function with
    | some body => .function body
    | none => if regularCommands.contains text then .builtin text else .program

def runFault (fault : DiskFault) : Octets :=
  match fault with
  | .notFound | .notADirectory => "not found".toList
  | _ => fault.reason.toList

def runStatus : DiskFault → Nat
  | .notFound | .notADirectory | .nameTooLong | .tooManyLevels => 127
  | _ => 126

def searchPathOf (session : Session) : String :=
  Octets.toText (session.textOf "PATH")

def refuseRun (name : Octets) (fault : DiskFault) (status : Nat) : Act Unit := do
  Act.complain (name ++ ": ".toList ++ runFault fault)
  Act.setStatus status

variable (evaluate : Evaluator)

/-- Runs a command that is neither a function nor built in. -/
def external (searchPath : String) (name : Octets) (arguments : List Octets) : Act Unit := do
  let disk := (← get).disk
  let text := Octets.toText name
  let runPlaces (places : List Path) : Act Unit :=
    match Program.startAny disk places name arguments with
    | .ok call => start evaluate call
    | .error fault => refuseRun name fault (runStatus fault)
  if name.contains '/' then runPlaces [⟨text⟩]
  else
    match Program.find disk searchPath text with
    | .error fault => refuseRun name fault 127
    | .ok _ => runPlaces (Program.placesFromFound disk searchPath text)

/-- `exec`: a program takes the place of the script. -/
def replace (arguments : List Octets) : Act Unit := do
  match arguments with
  | [] => Act.setStatus 0
  | name :: rest =>
      let session ← get
      let places := Program.placesOf (searchPathOf session) (Octets.toText name)
      match Program.startAny session.disk places name rest with
      | .ok call =>
          start evaluate call
          modify fun session => { session with traps := [] }
      | .error fault => refuseRun name fault (runStatus fault)
      throw .leaving

/-- `eval`: runs its arguments as a script. -/
def evaluateText (isTested : Bool) (arguments : List Octets) : Act Unit := do
  let status ← script evaluate isTested false (Text.join [' '] arguments)
  Act.setStatus status

/-- The file that `.` means: a name without a separator is looked up. -/
def sourceFile (name : Octets) : Act Octets := do
  let session ← get
  if name.contains '/' then return name
  let places := Program.placesOf (searchPathOf session) (Octets.toText name)
  match places.find? session.disk.isFile with
  | some path => return Octets.ofText path.text
  | none => Act.fail (name ++ ": not found".toList)

/-- `.`: runs a script in this session. -/
def runFile (arguments : List Octets) : Act Unit := do
  match ← Act.operands arguments with
  | [] => Act.setStatus 0
  | name :: _ =>
      let file ← sourceFile name
      let octets ← scriptIn file
      modify fun session => { session with command := some file }
      let status ← script evaluate false true octets
      modify fun session =>
        { session with
          status := status
          skip := if session.skip == some .returning then none else session.skip }

/-- Tells what a name means, in words or only as it would be called. -/
def describe (isWordy : Bool) (searchPath : Option String) (name : Octets) : Act Nat := do
  let session ← get
  let text := String.ofList name
  let say (words : Octets) : Act Nat := do
    Act.emit ((if isWordy then name ++ words else name) ++ ['\n'])
    return 0
  let sayPath (path : Octets) : Act Nat := do
    Act.emit ((if isWordy then name ++ " is ".toList ++ path else path) ++ ['\n'])
    return 0
  let unknown : Act Nat := do
    if isWordy then Act.emit (name ++ ": not found\n".toList)
    return 127
  if keywords.contains text then say " is a shell keyword".toList
  else
    match session.aliases.lookup name with
    | some value =>
        if isWordy then say (" is an alias for ".toList ++ value)
        else
          Act.emit ("alias ".toList ++ name ++ '=' :: Builtin.singleQuoted value ++ ['\n'])
          return 0
    | none =>
        match kindOf session false name with
        | .function _ => say " is a shell function".toList
        | .builtin found =>
            if specialCommands.contains found then say " is a special shell builtin".toList
            else say " is a shell builtin".toList
        | .program =>
            if name.contains '/' then
              if session.disk.isPresent ⟨Octets.toText name⟩ then sayPath name else unknown
            else
              match Program.find session.disk (searchPath.getD (searchPathOf session))
                  (Octets.toText name) with
              | .ok path => sayPath (Octets.ofText path.text)
              | .error _ => unknown

/-- `type`: tells what names mean. -/
def describeAll (names : List Octets) : Act Unit := do
  let operands ← Act.operands names
  let statuses ← operands.mapM (describe true none)
  Act.setStatus (if statuses.all (· == 0) then 0 else 127)

/-- `command` without a command to run: tells what one is. -/
def describeCommand (arguments : List Octets) : Act Unit := do
  let (given, operands) ← Act.options "pvV" "" arguments
  let has (letter : Char) : Bool := given.any fun option => option.1 == letter
  let searchPath := if has 'p' then some standardPath else none
  match operands with
  | name :: _ =>
      if has 'v' || has 'V' then Act.setStatus (← describe (has 'V') searchPath name)
      else Act.setStatus 0
  | [] => Act.setStatus 0

/-- `wait`: the status of a command that ran in the background. -/
def wait (arguments : List Octets) : Act Unit := do
  let operands ← Act.operands arguments
  Act.setStatus 0
  operands.forM fun operand => do
    if operand.head? == some '%' then Act.fail ("No such job: ".toList ++ operand)
    let number ← Builtin.count operand
    Act.setStatus (((← get).jobs.lookup number).getD 127)

/-- `fg` and `bg` find no jobs. -/
def resume (arguments : List Octets) : Act Unit := do
  match ← Act.operands arguments with
  | [] => Act.failText "No current job"
  | job :: _ => Act.fail ("No such job: ".toList ++ job)

def signalNames : List Octets :=
  let plain := Builtin.signals.zipIdx.map fun (name, number) =>
    if number == 0 || number == 16 then (toString number).toList else name.toList
  let raised := (List.range 15).map fun step => "RTMIN+".toList ++ (toString (step + 1)).toList
  let lowered := (List.range 14).map fun step => "RTMAX-".toList ++ (toString (14 - step)).toList
  plain ++ ["32".toList, "33".toList, "RTMIN".toList] ++ raised ++ lowered ++ ["RTMAX".toList]

/-- `kill -l`: names signals; a status above 128 stands for a signal too. -/
def nameSignals (operands : List Octets) : Act Unit := do
  Act.setStatus 0
  match operands with
  | [] => signalNames.forM fun name => Act.emit (name ++ ['\n'])
  | given :: _ =>
      let number ← Builtin.count given
      let signal := if 128 < number then number - 128 else number
      match (if signal == 0 then none else signalNames[signal]?) with
      | some name => Act.emit (name ++ ['\n'])
      | none => Act.fail ("invalid signal number or exit status: ".toList ++ given)

def signalNumber? (given : Octets) : Option Nat :=
  if !given.isEmpty && given.all Char.isDigit then
    let number := Text.digitsValue given
    if number < signalNames.length then some number else none
  else signalNames.findIdx? fun name => name == given.map Char.toUpper

/-- Sends a signal to this script: it is trapped, ignored or the end. -/
def signalSelf (number : Nat) : Act Unit := do
  let session ← get
  let name := String.ofList ((signalNames[number]?).getD [])
  let isHarmless := number == 0 || ["CHLD", "CONT", "URG", "WINCH"].contains name
  match session.traps.lookup name with
  | some action =>
      let _ ← script evaluate false false action
      Act.setStatus session.status
  | none =>
      unless isHarmless do
        set { session with status := 128 + number, traps := [] }
        throw .leaving

/-- Sends a signal to scripts, of which there is only this one. -/
def signalAll (number : Nat) (operands : List Octets) : Act Unit := do
  Act.setStatus 0
  operands.forM fun operand => do
    if operand.head? == some '%' then Act.fail ("No such job: ".toList ++ operand)
    let script ← Builtin.count operand
    if (← get).parameter? ['$'] == some (toString script).toList then signalSelf evaluate number
    else
      Act.complain "No such process\n".toList
      Act.setStatus 1

def kill (arguments : List Octets) : Act Unit := do
  let send (given : Octets) (operands : List Octets) : Act Unit := do
    if operands.isEmpty then
      Act.failText ("Usage: kill [-s sigspec | -signum | -sigspec] [pid | job]... or\n" ++
        "kill -l [exitstatus]")
    match signalNumber? given with
    | some number => signalAll evaluate number operands
    | none => Act.fail ("invalid signal number or name: ".toList ++ given)
  match arguments with
  | ('-' :: letters) :: rest =>
      if letters != [] && letters != ['l'] && (signalNumber? letters).isSome then
        send letters rest
      else
        let (given, operands) ← Act.options "l" "s" arguments
        if given.any fun option => option.1 == 'l' then nameSignals operands
        else
          match given.getLast? with
          | some (_, name) => send name operands
          | none => send "TERM".toList operands
  | _ => send "TERM".toList arguments

/-- `times`: no time has passed. -/
def times : Act Unit := do
  let line := "0m0.000000s 0m0.000000s\n".toList
  Act.emit (line ++ line)
  Act.setStatus 0

/-- `ulimit`: there are no limits. -/
def limits (arguments : List Octets) : Act Unit := do
  if (arguments.dropWhile fun argument => argument.head? == some '-').isEmpty then
    Act.emit "unlimited\n".toList
  Act.setStatus 0

/-- `hash`: looks programs up. -/
def lookUp (arguments : List Octets) : Act Unit := do
  let (_, operands) ← Act.options "rv" "" arguments
  Act.setStatus 0
  operands.forM fun name => do
    let session ← get
    match kindOf session false name with
    | .program =>
        if name.contains '/' then return ()
        match Program.find session.disk (searchPathOf session) (Octets.toText name) with
        | .ok _ => return ()
        | .error fault => refuseRun name fault 1
    | _ => return ()

def builtin (isTested : Bool) (name : String) (arguments : List Octets) : Act Unit :=
  match name with
  | "false" => Act.setStatus 1
  | "echo" => Builtin.echo arguments
  | "printf" => Builtin.printf arguments
  | "test" => Builtin.test arguments
  | "[" => Builtin.bracket arguments
  | "pwd" => Builtin.printPlace arguments
  | "cd" | "chdir" => Builtin.changeDirectory arguments
  | "umask" => Builtin.mask arguments
  | "exit" => Builtin.exit arguments
  | "return" => Builtin.leaveFunction arguments
  | "break" => Builtin.leaveLoops .breaking arguments
  | "continue" => Builtin.leaveLoops .continuing arguments
  | "trap" => Builtin.trap arguments
  | "alias" => Builtin.setAliases arguments
  | "unalias" => Builtin.forgetAliases arguments
  | "export" =>
      Builtin.mark "export".toList (·.isExported) ({ · with isExported := true }) arguments
  | "readonly" =>
      Builtin.mark "readonly".toList (·.isReadOnly) ({ · with isReadOnly := true }) arguments
  | "unset" => Builtin.unset arguments
  | "local" => Builtin.makeLocal arguments
  | "shift" => Builtin.shift arguments
  | "set" => Builtin.setAll arguments
  | "read" => Builtin.readLineInto arguments
  | "getopts" => Builtin.getOption arguments
  | "eval" => evaluateText evaluate isTested arguments
  | "." => runFile evaluate arguments
  | "exec" => replace evaluate arguments
  | "command" => describeCommand arguments
  | "type" => describeAll arguments
  | "wait" => wait arguments
  | "kill" => kill evaluate arguments
  | "fg" | "bg" => resume arguments
  | "times" => times
  | "ulimit" => limits arguments
  | "hash" => lookUp arguments
  | _ => Builtin.succeed arguments

/-- Runs a built-in command under its name.  Output that could not be written is
noticed afterwards. -/
def named (name : Octets) (action : Act Unit) : Act Unit := do
  let outer := (← get).command
  modify fun session => { session with command := some name, hasWriteFault := false }
  let noticing : Act Unit := do
    action
    let session ← get
    if session.hasWriteFault then
      Act.complain (name ++ ": I/O error".toList)
      Act.setStatus (session.status ||| 1)
  Act.ensuring noticing fun session =>
    { session with command := outer, hasWriteFault := false }

end Evaluate

end ElmAtlas.Shell
