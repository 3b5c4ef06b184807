import ElmAtlas.Shell.Condition
import ElmAtlas.Shell.Device
import ElmAtlas.Shell.Printing
import ElmAtlas.Shell.Program
import ElmAtlas.Shell.Session

/-!
# Utilities

The small programs that a machine comes with.  They write to the streams of the
session they run in and set its status; a complaint begins with the name that the
program was called by.
-/

namespace ElmAtlas.Shell.Utility

def quoted (octets : Octets) : Octets :=
  ['\''] ++ octets ++ ['\'']

variable (name : Octets)

def complain (problem : Octets) : Act Unit :=
  modify fun session =>
    let (written, _) := session.write 2 (name ++ ": ".toList ++ problem ++ ['\n'])
    { written with status := 1 }

/-- Tells that the arguments make no sense, and where to read about them. -/
def misuse (status : Nat) (problem : Octets) : Act Unit := do
  complain name problem
  modify fun session =>
    let (written, _) := session.write 2
      ("Try ".toList ++ quoted (name ++ " --help".toList) ++ " for more information.\n".toList)
    { written with status := status }
  throw .leaving

def sayLine (octets : Octets) : Act Unit :=
  Act.emit (octets ++ ['\n'])

/-- Letters of options with their arguments, and the operands.  Options may stand
anywhere in front of two dashes. -/
structure Given where
  letters : List (Char × Octets) := []
  operands : List Octets := []

namespace Given

def has (given : Given) (letter : Char) : Bool :=
  given.letters.any fun entry => entry.1 == letter

end Given

/-- The letters of one argument; the last one may take the next argument. -/
def letters (plain valued : String) : Octets → List Octets →
    Act (List (Char × Octets) × List Octets)
  | [], rest => return ([], rest)
  | letter :: more, rest => do
      if valued.toList.contains letter then
        match more, rest with
        | [], argument :: behind => return ([(letter, argument)], behind)
        | [], [] =>
            misuse name 1 ("option requires an argument -- ".toList ++ quoted [letter])
            return ([], [])
        | value, _ => return ([(letter, value)], rest)
      else if plain.toList.contains letter then
        let (found, behind) ← letters plain valued more rest
        return ((letter, []) :: found, behind)
      else
        misuse name 1 ("invalid option -- ".toList ++ quoted [letter])
        return ([], [])

/-- Reads the arguments; `fuel` bounds their number. -/
def readArguments (plain valued : String) : (fuel : Nat) → List Octets → Act Given
  | 0, arguments => return { operands := arguments }
  | fuel + 1, arguments => do
      match arguments with
      | [] => return {}
      | ['-', '-'] :: rest => return { operands := rest }
      | ('-' :: '-' :: long) :: _ =>
          misuse name 1 ("unrecognized option ".toList ++ quoted ('-' :: '-' :: long))
          return {}
      | ('-' :: letter :: more) :: rest =>
          let (found, behind) ← letters name plain valued (letter :: more) rest
          let given ← readArguments plain valued fuel behind
          return { given with letters := found ++ given.letters }
      | operand :: rest =>
          let given ← readArguments plain valued fuel rest
          return { given with operands := operand :: given.operands }

def given (plain valued : String) (arguments : List Octets) : Act Given :=
  readArguments name plain valued (arguments.length + 1) arguments

/-- `echo`: options come first and say whether escapes count and whether the line
ends. -/
def echo (arguments : List Octets) : Act Unit :=
  let isOption (argument : Octets) : Bool :=
    match argument with
    | '-' :: letter :: more =>
        (letter :: more).all fun octet => octet == 'n' || octet == 'e' || octet == 'E'
    | _ => false
  let options := (arguments.takeWhile isOption).flatten.filter (· != '-')
  let text := Text.join [' '] (arguments.dropWhile isOption)
  let escapes := (options.filter (· != 'n')).getLast? == some 'e'
  let (shown, isCut) := if escapes then Printing.unescape text else (text, false)
  Act.emit (shown ++ if isCut || options.contains 'n' then [] else ['\n'])

def printf (arguments : List Octets) : Act Unit := do
  match arguments with
  | [] => misuse name 1 "missing operand".toList
  | format :: rest =>
      let printed := Printing.printf format rest
      Act.emit printed.output
      printed.complaints.forM (complain name)
      printed.fault.toList.forM (complain name)

def test (arguments : List Octets) : Act Unit := do
  match Condition.decide (← get).disk (arguments.length + 1) arguments with
  | .ok value => Act.setStatus (if value then 0 else 1)
  | .error problem =>
      complain name problem
      Act.setStatus 2

def bracket (arguments : List Octets) : Act Unit := do
  if arguments.getLast? == some [']'] then test name arguments.dropLast
  else
    complain name "missing ']'".toList
    Act.setStatus 2

def pathOf (operand : Octets) : Path :=
  ⟨Octets.toText operand⟩

def reason (fault : DiskFault) : Octets :=
  ": ".toList ++ fault.reason.toList

def lastPart (operand : Octets) : Octets :=
  let trimmed := operand.reverse.dropWhile (· == '/')
  if trimmed.isEmpty then operand.take 1
  else (trimmed.takeWhile (· != '/')).reverse

def withoutEnding (ending part : Octets) : Octets :=
  if ending.isSuffixOf part && ending != part then part.take (part.length - ending.length)
  else part

def baseName (arguments : List Octets) : Act Unit := do
  match ← given name "" "" arguments with
  | { operands := [], .. } => misuse name 1 "missing operand".toList
  | { operands := [operand], .. } => sayLine (lastPart operand)
  | { operands := [operand, ending], .. } =>
      sayLine (withoutEnding ending (lastPart operand))
  | { operands := _ :: _ :: extra :: _, .. } =>
      misuse name 1 ("extra operand ".toList ++ quoted extra)

def firstParts (operand : Octets) : Octets :=
  let isSlash (octet : Char) : Bool := octet == '/'
  let trimmed := operand.reverse.dropWhile isSlash
  let behind := (trimmed.dropWhile fun octet => !isSlash octet).dropWhile isSlash
  if !behind.isEmpty then behind.reverse
  else if operand.head? == some '/' then ['/']
  else ['.']

def directoryName (arguments : List Octets) : Act Unit := do
  let given ← given name "" "" arguments
  if given.operands.isEmpty then misuse name 1 "missing operand".toList
  given.operands.forM fun operand => sayLine (firstParts operand)

def copyStream (descriptor : Nat) : Act Unit := do
  let session ← get
  match session.remaining? descriptor with
  | some octets =>
      set (session.advance descriptor octets.length)
      Act.emit octets
  | none =>
      match session.streamOf? descriptor with
      | some (_, .file opened) =>
          match session.disk.top.get? opened.place with
          | some (.directory _) => complain name ("-".toList ++ reason .isADirectory)
          | _ => complain name "-: Bad file descriptor".toList
      | _ =>
          complain name "-: Bad file descriptor".toList
          complain name "closing standard input: Bad file descriptor".toList

def copyFile (operand : Octets) : Act Unit := do
  let disk := (← get).disk
  let path := pathOf operand
  let shown := if operand.isEmpty then quoted [] else operand
  if operand == ['-'] then copyStream name 0
  else
    match Device.ofPath? (disk.absolute path) with
    | some .null => return ()
    | some (.descriptor number) => copyStream name number
    | none =>
        match disk.read path with
        | .ok content => Act.emit (Octets.ofBytes content)
        | .error fault => complain name (shown ++ reason fault)

def cat (arguments : List Octets) : Act Unit := do
  let given ← given name "u" "" arguments
  (if given.operands.isEmpty then [['-']] else given.operands).forM (copyFile name)

/-- `mkdir`: makes directories, with those above them if asked to. -/
def makeDirectories (arguments : List Octets) : Act Unit := do
  let given ← given name "p" "m" arguments
  if given.operands.isEmpty then misuse name 1 "missing operand".toList
  given.operands.forM fun operand => do
    let session ← get
    let path := pathOf operand
    let attempt :=
      if given.has 'p' && !operand.isEmpty then session.disk.makeDirectories path
      else .ofExcept session.disk (session.disk.makeDirectory path)
    set { session with disk := attempt.disk }
    match attempt.fault with
    | none => return ()
    | some fault =>
        complain name ("cannot create directory ".toList ++ quoted operand ++ reason fault)

/-- `touch`: makes files that are missing. -/
def touch (arguments : List Octets) : Act Unit := do
  let given ← given name "acm" "drt" arguments
  if given.operands.isEmpty then misuse name 1 "missing file operand".toList
  given.operands.forM fun operand => do
    let session ← get
    let path := pathOf operand
    unless session.disk.isPresent path || given.has 'c' do
      match session.disk.writeFile path ByteArray.empty with
      | .ok disk => set { session with disk := disk }
      | .error fault =>
          let request := if operand.getLast? == some '/' then "setting times of" else "cannot touch"
          complain name (request.toList ++ [' '] ++ quoted operand ++ reason fault)

/-- `rm`: removes files, and directories if asked to. -/
def remove (arguments : List Octets) : Act Unit := do
  let given ← given name "rRfdv" "" arguments
  if given.operands.isEmpty && !given.has 'f' then misuse name 1 "missing operand".toList
  given.operands.forM fun operand => do
    let session ← get
    let path := pathOf operand
    let refuse (fault : DiskFault) : Act Unit :=
      complain name ("cannot remove ".toList ++ quoted operand ++ reason fault)
    match session.disk.node path with
    | .error .notFound => unless given.has 'f' do refuse .notFound
    | .error fault => refuse fault
    | .ok (.file _ _) => set { session with disk := session.disk.remove path }
    | .ok (.directory _) =>
        if given.has 'r' || given.has 'R' then
          if lastPart operand == ['.'] || lastPart operand == ['.', '.'] then
            complain name ("refusing to remove '.' or '..' directory: skipping ".toList ++
              quoted operand)
          else set { session with disk := session.disk.remove path }
        else refuse .isADirectory

/-- Whether text is a time: a number that is not negative, and a unit after it or
none. -/
def isDuration (octets : Octets) : Bool :=
  match Printing.Real.read? octets with
  | some (.finite isNegative ratio, unit) =>
      (!isNegative || ratio.numerator == 0) && isUnit unit
  | some (.infinite isNegative, unit) => !isNegative && isUnit unit
  | some (.undefined, _) | none => false
where
  isUnit (unit : Octets) : Bool :=
    ["", "s", "m", "h", "d"].any fun known => known.toList == unit

/-- `sleep` ends at once: nothing that a session shows depends on time. -/
def sleep (arguments : List Octets) : Act Unit := do
  let operands := (← given name "" "" arguments).operands
  if operands.isEmpty then misuse name 1 "missing operand".toList
  match (operands.filter fun operand => !isDuration operand).reverse with
  | [] => return ()
  | last :: before =>
      before.reverse.forM fun operand => complain name (problem operand)
      misuse name 1 (problem last)
where
  problem (operand : Octets) : Octets := "invalid time interval ".toList ++ quoted operand

/-- `pwd`: tells the working directory, whatever it is asked. -/
def printPlace (arguments : List Octets) : Act Unit := do
  let read ← given name "LP" "" arguments
  unless read.operands.isEmpty do
    complain name "ignoring non-option arguments".toList
    Act.setStatus 0
  sayLine (Octets.ofText (← get).disk.cwd.text)

/-- Does the work of a utility; those that run other programs do nothing here. -/
def work (resident : Resident) (arguments : List Octets) : Act Unit := do
  match resident with
  | .shell | .env | .true => return ()
  | .false => Act.setStatus 1
  | .echo => echo arguments
  | .printf => printf name arguments
  | .test => test name arguments
  | .bracket => bracket name arguments
  | .pwd => printPlace name arguments
  | .cat => cat name arguments
  | .sleep => sleep name arguments
  | .basename => baseName name arguments
  | .dirname => directoryName name arguments
  | .makeDirectory => makeDirectories name arguments
  | .touch => touch name arguments
  | .remove => remove name arguments

/-- Runs a utility.  Copying needs an output from the start, and output that was
lost is noticed at the end. -/
def run (resident : Resident) (arguments : List Octets) : Act Unit := do
  Act.setStatus 0
  if resident == .cat && ((← get).streamOf? 1).isNone then
    complain name "standard output: Bad file descriptor".toList
  else
    work name resident arguments
    if (← get).hasWriteFault then
      complain name "write error: Bad file descriptor".toList

end ElmAtlas.Shell.Utility
