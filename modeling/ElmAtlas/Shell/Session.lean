import ElmAtlas.Shell.Form
import ElmAtlas.Shell.Stream
import ElmAtlas.Text.Blank
import ElmAtlas.Text.Decimal

/-!
# Sessions

A session is a script at work: the disk it sees, its arguments and variables, and
the streams it reads and writes.  What a command does is an `Act`: it changes the
session and may stop, and a stop keeps what was changed before.
-/

namespace ElmAtlas.Shell

structure Variable where
  value : Option Octets := none
  isExported : Bool := false
  isReadOnly : Bool := false
  deriving DecidableEq, Repr

/-- Commands that are passed over until a loop or function is left. -/
inductive Skip where
  | breaking (levels : Nat)
  | continuing (levels : Nat)
  | returning
  deriving DecidableEq, Repr

/-- Why nothing more is done: an error was reported, or the script leaves. -/
inductive Stop where
  | failed
  | leaving
  deriving DecidableEq, Repr

/-- `line` is the line of the command at work and `reached` the one up to which the
script was read.  `command` is the built-in command at work, and `endStatus` the
status with which the script is ending.  `descriptors` says which of the streams a
descriptor is joined to; `jobs` holds the numbers of commands that ran in the
background, with their statuses. -/
structure Session where
  disk : Disk
  name : Octets
  arguments : List Octets := []
  bindings : List (Octets × Variable) := []
  functions : List (Octets × Form) := []
  aliases : List (Octets × Octets) := []
  traps : List (String × Octets) := []
  options : List Char := []
  status : Nat := 0
  substitutionStatus : Nat := 0
  line : Nat := 0
  reached : Nat := 1
  command : Option Octets := none
  skip : Option Skip := none
  loops : Nat := 0
  calls : Nat := 0
  locals : List (List (Octets × Option Variable)) := []
  streams : Array Stream := #[]
  descriptors : List (Nat × Nat) := []
  mask : Nat := 18
  hasWriteFault : Bool := false
  endStatus : Option Nat := none
  optionIndex : Nat := 1
  optionOffset : Option Nat := none
  jobs : List (Nat × Nat) := []

abbrev Act := EStateM Stop Session

/-- The options of a script by name and letter.  The last two have no letter that
a script could write. -/
def optionTable : List (String × Char) :=
  [("errexit", 'e'), ("noglob", 'f'), ("ignoreeof", 'I'), ("interactive", 'i'),
    ("monitor", 'm'), ("noexec", 'n'), ("stdin", 's'), ("xtrace", 'x'), ("verbose", 'v'),
    ("vi", 'V'), ("emacs", 'E'), ("noclobber", 'C'), ("allexport", 'a'), ("notify", 'b'),
    ("nounset", 'u'), ("privileged", 'p'), ("nolog", '\x01'), ("debug", '\x02')]

def defaultSeparators : Octets :=
  [' ', '\t', '\n']

namespace Session

def streamOf? (session : Session) (descriptor : Nat) : Option (Nat × Stream) := do
  let index ← session.descriptors.lookup descriptor
  let stream ← session.streams[index]?
  return (index, stream)

/-- Writes to a descriptor; says whether that was possible. -/
def write (session : Session) (descriptor : Nat) (octets : Octets) : Session × Bool :=
  match session.streamOf? descriptor with
  | none => (session, false)
  | some (index, stream) =>
      match stream.write? session.disk octets with
      | none => (session, false)
      | some (disk, written) =>
          ({ session with disk := disk, streams := session.streams.setIfInBounds index written },
            true)

def remaining? (session : Session) (descriptor : Nat) : Option Octets :=
  (session.streamOf? descriptor).bind fun (_, stream) => stream.remaining? session.disk

def advance (session : Session) (descriptor count : Nat) : Session :=
  match session.streamOf? descriptor with
  | none => session
  | some (index, stream) =>
      { session with streams := session.streams.setIfInBounds index (stream.advance count) }

def close (session : Session) (descriptor : Nat) : Session :=
  { session with
    descriptors := session.descriptors.filter fun entry => entry.1 != descriptor }

def join (session : Session) (descriptor index : Nat) : Session :=
  { session with
    descriptors := (descriptor, index) ::
      session.descriptors.filter fun entry => entry.1 != descriptor }

def joinNew (session : Session) (descriptor : Nat) (stream : Stream) : Session :=
  { session with streams := session.streams.push stream }.join descriptor session.streams.size

def binding? (session : Session) (name : Octets) : Option Variable :=
  session.bindings.lookup name

/-- Puts a binding in place of one of the same name, or behind all others. -/
def putBinding (name : Octets) (binding : Variable) :
    List (Octets × Variable) → List (Octets × Variable)
  | [] => [(name, binding)]
  | entry :: entries =>
      if entry.1 == name then (name, binding) :: entries
      else entry :: putBinding name binding entries

def bind (session : Session) (name : Octets) (found : Option Variable) : Session :=
  match found with
  | some binding => { session with bindings := putBinding name binding session.bindings }
  | none =>
      { session with bindings := session.bindings.filter fun entry => entry.1 != name }

def value? (session : Session) (name : Octets) : Option Octets :=
  (session.binding? name).bind Variable.value

def textOf (session : Session) (name : String) : Octets :=
  (session.value? name.toList).getD []

def has (session : Session) (option : Char) : Bool :=
  session.options.contains option

def setOption (session : Session) (option : Char) (isOn : Bool) : Session :=
  let others := session.options.filter (· != option)
  { session with options := if isOn then option :: others else others }

def optionLetters (session : Session) : Octets :=
  (optionTable.map Prod.snd).reverse.filter fun letter => letter.isAlpha && session.has letter

def separators (session : Session) : Octets :=
  (session.value? "IFS".toList).getD defaultSeparators

/-- Names are spread over so many buckets; programs see the variables bucket by
bucket. -/
def bucketOf (name : Octets) : Nat :=
  (name.foldl (fun sum octet => sum + octet.toNat) (16 * (name.headD '\x00').toNat)) % 39

def environment (session : Session) : List (Octets × Octets) :=
  let exported := session.bindings.filterMap fun (name, binding) =>
    if binding.isExported then binding.value.map (name, ·) else none
  exported.mergeSort fun left right => bucketOf left.1 ≤ bucketOf right.1

/-- The value of a parameter that is set; the lists of all arguments are no
single value. -/
def parameter? (session : Session) (name : Octets) : Option Octets :=
  match name with
  | ['#'] => some (toString session.arguments.length).toList
  | ['?'] => some (toString session.status).toList
  | ['$'] => some "4711".toList
  | ['-'] => some session.optionLetters
  | ['!'] => session.jobs.head?.map fun job => (toString job.1).toList
  | octet :: _ =>
      if octet.isDigit then
        match Text.digitsValue name with
        | 0 => some session.name
        | number + 1 => session.arguments[number]?
      else session.value? name
  | [] => none

end Session

namespace Act

/-- Tells what is wrong, with the name of the script, the line and the built-in
command that is at work. -/
def complain (problem : Octets) : Act Unit :=
  modify fun session =>
    let place := session.name ++ ": ".toList ++ (toString session.line).toList ++ ": ".toList
    let command :=
      match session.command with
      | some command => command ++ ": ".toList
      | none => []
    (session.write 2 (place ++ command ++ problem ++ ['\n'])).1

def setStatus (status : Nat) : Act Unit :=
  modify fun session => { session with status := status }

def fail {α : Type} (problem : Octets) : Act α := do
  complain problem
  setStatus 2
  throw .failed

def failText {α : Type} (problem : String) : Act α :=
  fail problem.toList

/-- Writes to the output; whether that failed is looked at later. -/
def emit (octets : Octets) : Act Unit :=
  modify fun session =>
    if octets.isEmpty then session
    else
      let (written, isGood) := session.write 1 octets
      { written with hasWriteFault := written.hasWriteFault || !isGood }

def has (option : Char) : Act Bool := do
  return (← get).has option

def assign (name value : Octets) : Act Unit := do
  let session ← get
  let old := (session.binding? name).getD {}
  if old.isReadOnly then fail (name ++ ": is read only".toList)
  let isExported := old.isExported || session.has 'a'
  set (session.bind name (some { old with value := some value, isExported := isExported }))
  if name == "OPTIND".toList then
    let index := max 1 (Text.digitsValue (value.takeWhile Char.isDigit))
    modify fun session => { session with optionIndex := index, optionOffset := none }

/-- Remembers a variable that is local to the innermost function, so that it gets
its value back. -/
def saveLocal (name : Octets) : Act Unit :=
  modify fun session =>
    match session.locals with
    | [] => session
    | frame :: frames =>
        if frame.any (·.1 == name) then session
        else { session with locals := ((name, session.binding? name) :: frame) :: frames }

def ensuring (action : Act Unit) (change : Session → Session) : Act Unit := do
  try action
  catch stop =>
    modify change
    throw stop
  modify change

def withLocals (action : Act Unit) : Act Unit := do
  modify fun session => { session with locals := [] :: session.locals }
  ensuring action fun session =>
    let saved := session.locals.headD []
    let bound := saved.foldl (fun session (name, old) => session.bind name old) session
    { bound with locals := session.locals.tail }

end Act

end ElmAtlas.Shell
