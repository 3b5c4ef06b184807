import ElmAtlas.Shell.Builtin.Control
import ElmAtlas.Shell.Form.Reader
import ElmAtlas.Shell.Redirect

/-!
# Scripts at work

A script is read and run line by line, so that what a line does counts when the
next one is read.  Parts of it run in sessions of their own, of which only the
effects on files and streams stay.  Everything is written against an evaluator for
the forms inside.
-/

namespace ElmAtlas.Shell

/-- Runs a form.  `isTested` says that somebody looks at its status, so that its
failure does not end the script. -/
abbrev Evaluator := (isTested : Bool) → Form → Act Unit

namespace Evaluate

def broken {α : Type} (fault : SyntaxFault) : Act α := do
  modify fun session => { session with line := fault.line }
  Act.fail ("Syntax error: ".toList ++ fault.problem.toList)

/-- Stops a script that asks for it when a command failed that nobody tests. -/
def checked (isTested : Bool) (action : Act Unit) : Act Unit := do
  action
  let session ← get
  if session.has 'e' && !isTested && session.status != 0 then throw .leaving

def firstLines : (count : Nat) → Octets → Octets
  | 0, _ => []
  | _ + 1, [] => []
  | count + 1, octet :: rest =>
      octet :: firstLines (if octet == '\n' then count else count + 1) rest

variable (evaluate : Evaluator)

/-- Runs a script line by line and gives the status of the last command, or the
given one when there is none.  `echoes` says that lines are shown when the option
for that is on; `fuel` bounds the lines. -/
def lines (isTested echoes : Bool) : (fuel : Nat) → Source → (status : Nat) → Act Nat
  | 0, _, status => return status
  | fuel + 1, source, status => do
      let session ← get
      let echo (read : Octets) : Act Unit :=
        modify fun session =>
          if echoes && session.has 'v' then (session.write 2 read).1 else session
      match readLine { source with aliases := session.aliases } with
      | .finished =>
          echo source.octets
          return status
      | .broken fault =>
          echo (firstLines (fault.line + 1 - source.line) source.octets)
          broken fault
      | .form form rest =>
          echo (source.octets.take (source.octets.length - rest.octets.length))
          modify fun session => { session with reached := rest.line }
          evaluate isTested form
          let after ← get
          let now :=
            match form with
            | .nothing => status
            | _ => after.status
          if after.skip.isSome then return now
          lines isTested echoes fuel rest now

def script (isTested echoes : Bool) (octets : Octets) : Act Nat := do
  let outer := (← get).reached
  let status ← lines evaluate isTested echoes (octets.length + 1) { octets := octets, line := 1 } 0
  modify fun session => { session with reached := outer }
  return status

/-- The session in which an action ended, whether it was stopped or not. -/
def ended (action : Act Unit) (session : Session) : Session :=
  match action session with
  | .ok _ after => after
  | .error _ after => after

/-- Runs an action and then what is to be done at its end.  That keeps the status
unless it stops itself. -/
def throughTrap (action : Act Unit) (session : Session) : Session :=
  let finished := ended action session
  match finished.traps.lookup "EXIT" with
  | none => finished
  | some last =>
      let ready := { finished with
        traps := finished.traps.filter fun entry => entry.1 != "EXIT"
        endStatus := some finished.status
        skip := none
        loops := 0
        command := none }
      match script evaluate false false last ready with
      | .ok _ after => { after with status := finished.status }
      | .error _ after => after

/-- Runs an action to its end.  A status that is seen from outside has eight
bits. -/
def toEnd (action : Act Unit) (session : Session) : Session :=
  let finished := throughTrap evaluate action session
  { finished with status := finished.status % 256 }

/-- Runs an action in a session of its own and gives that session. -/
def apart (prepare : Session → Session) (action : Act Unit) : Act Session := do
  let session ← get
  let finished := toEnd evaluate action (prepare session)
  let disk := finished.disk
  set { session with disk := { disk with cwd := session.disk.cwd }, streams := finished.streams }
  return finished

/-- A copy of a session, in which only signals that are ignored stay trapped. -/
def copied (session : Session) : Session :=
  { session with
    traps := session.traps.filter fun entry => entry.2.isEmpty
    endStatus := none }

def writtenTo (session : Session) (index : Nat) : Octets :=
  match session.streams[index]? with
  | some (.channel content) => content
  | _ => []

/-- The output of a script without the line ends at its end. -/
def substitute : Substitute := fun octets line => do
  let index := (← get).streams.size
  let action : Act Unit := do
    match readWhole octets line (← get).aliases with
    | .ok form => evaluate false form
    | .error fault => broken fault
  let finished ← apart evaluate (fun session => (copied session).joinNew 1 (.channel [])) action
  modify fun session => { session with substitutionStatus := finished.status }
  let written := (writtenTo finished index).filter (· != '\x00')
  return (written.reverse.dropWhile (· == '\n')).reverse

def pipeline (isTested : Bool) : (input : Option Nat) → List Form → Act Unit
  | _, [] => return ()
  | input, form :: rest => do
      let output := (← get).streams.size
      let connect (session : Session) : Session :=
        let reading :=
          match input with
          | some index => session.join 0 index
          | none => session
        if rest.isEmpty then reading else reading.joinNew 1 (.channel [])
      let finished ← apart evaluate (fun session => connect (copied session))
        (evaluate isTested form)
      Act.setStatus finished.status
      pipeline isTested (some output) rest

/-- Runs a form that nobody waits for; it has nothing to read. -/
def background (form : Form) : Act Unit := do
  let finished ← apart evaluate (fun session => (copied session).joinNew 0 .void)
    (evaluate false form)
  modify fun session =>
    let number := 4712 + session.jobs.length
    { session with status := 0, jobs := (number, finished.status) :: session.jobs }

end Evaluate

end ElmAtlas.Shell
