import ElmAtlas.Shell.Builtin.Variables

/-!
# Built-in commands that change what comes next
-/

namespace ElmAtlas.Shell.Builtin

open Act

/-- `exit`: leaves with a status; while the script is ending, the status that it
ends with stays. -/
def exit (arguments : List Octets) : Act Unit := do
  match arguments, (← get).endStatus with
  | [], none => pure ()
  | [], some status => setStatus status
  | argument :: _, _ => setStatus (← count argument)
  throw .leaving

/-- `return`: leaves the function or script at work. -/
def leaveFunction (arguments : List Octets) : Act Unit := do
  match arguments with
  | [] => pure ()
  | argument :: _ => setStatus (← count argument)
  modify fun session => { session with skip := some .returning }

/-- `break` and `continue`: leave so many loops, as far as there are any. -/
def leaveLoops (skip : Nat → Skip) (arguments : List Octets) : Act Unit := do
  let levels ←
    match arguments with
    | [] => pure 1
    | argument :: _ => do
        let number ← count argument
        if number == 0 then fail ("Illegal number: ".toList ++ argument)
        pure number
  let session ← get
  let levels := min levels session.loops
  set { session with
    status := 0
    skip := if levels == 0 then session.skip else some (skip levels) }

/-- The signals by their numbers; the first stands for the end of the script. -/
def signals : List String :=
  ["EXIT", "HUP", "INT", "QUIT", "ILL", "TRAP", "ABRT", "BUS", "FPE", "KILL", "USR1", "SEGV",
    "USR2", "PIPE", "ALRM", "TERM", "STKFLT", "CHLD", "CONT", "STOP", "TSTP", "TTIN", "TTOU",
    "URG", "XCPU", "XFSZ", "VTALRM", "PROF", "WINCH", "IO", "PWR", "SYS"]

def signal? (given : Octets) : Option String :=
  if !given.isEmpty && given.all Char.isDigit then signals[Text.digitsValue given]?
  else signals.find? fun name => name.toList == given.map Char.toUpper

/-- `trap`: sets what is done when a signal comes, or shows it. -/
def trap (arguments : List Octets) : Act Unit := do
  let operands ← operands arguments
  setStatus 0
  let session ← get
  match operands with
  | [] =>
      signals.forM fun signal => do
        match session.traps.lookup signal with
        | some action =>
            emit ("trap -- ".toList ++ singleQuoted action ++ [' '] ++ signal.toList ++ ['\n'])
        | none => return ()
  | first :: rest =>
      let isReset := rest.isEmpty || (first.all Char.isDigit && (signal? first).isSome)
      let action : Option Octets := if isReset || first == ['-'] then none else some first
      setTraps action (if isReset then operands else rest)
where
  /-- Sets one trap after another; one that does not exist ends the command. -/
  setTraps (action : Option Octets) : List Octets → Act Unit
    | [] => return ()
    | given :: rest => do
        match signal? given with
        | none =>
            modify fun session =>
              (session.write 2 ("trap: ".toList ++ given ++ ": bad trap\n".toList)).1
            setStatus 1
        | some signal =>
            modify fun session =>
              let others := session.traps.filter fun entry => entry.1 != signal
              let added := action.toList.map (signal, ·)
              { session with traps := added ++ others }
            setTraps action rest

/-- `alias`: sets or shows what stands for other octets. -/
def setAliases (arguments : List Octets) : Act Unit := do
  setStatus 0
  let shown (entry : Octets × Octets) : Octets :=
    entry.1 ++ '=' :: singleQuoted entry.2 ++ ['\n']
  if arguments.isEmpty then
    (← get).aliases.forM fun entry => emit (shown entry)
  else
    arguments.forM fun argument => do
      let session ← get
      match Text.splitOnce '=' argument with
      | some (name, value) =>
          let others := session.aliases.filter fun entry => entry.1 != name
          set { session with aliases := (name, value) :: others }
      | none =>
          match session.aliases.lookup argument with
          | some value => emit (shown (argument, value))
          | none =>
              modify fun session =>
                (session.write 2 ("alias: ".toList ++ argument ++ " not found\n".toList)).1
              setStatus 1

/-- `unalias`: forgets aliases. -/
def forgetAliases (arguments : List Octets) : Act Unit := do
  let (given, names) ← options "a" "" arguments
  setStatus 0
  if !given.isEmpty then modify fun session => { session with aliases := [] }
  names.forM fun name => do
    let session ← get
    if (session.aliases.lookup name).isNone then
      modify fun session =>
        (session.write 2 ("unalias: ".toList ++ name ++ " not found\n".toList)).1
      setStatus 1
    else
      set { session with aliases := session.aliases.filter fun entry => entry.1 != name }

end ElmAtlas.Shell.Builtin
