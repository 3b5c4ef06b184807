import ElmAtlas.Disk
import ElmAtlas.Path.Search
import ElmAtlas.Text.Octets

/-!
# Programs

A program is a file that may be run: one of the programs that a machine comes
with, or a script whose first line names a program that reads it.  A name without
a separator is looked up in the directories of a search path.
-/

namespace ElmAtlas.Shell

/-- The programs that a machine comes with. -/
inductive Resident where
  | shell
  | true
  | false
  | echo
  | printf
  | test
  | bracket
  | pwd
  | cat
  | env
  | sleep
  | basename
  | dirname
  | makeDirectory
  | touch
  | remove
  deriving DecidableEq, Repr

namespace Resident

def names : List (String × Resident) :=
  [("sh", shell), ("dash", shell), ("true", true), ("false", false), ("echo", echo),
    ("printf", printf), ("test", test), ("[", bracket), ("pwd", pwd), ("cat", cat), ("env", env),
    ("sleep", sleep), ("basename", basename), ("dirname", dirname), ("mkdir", makeDirectory),
    ("touch", touch), ("rm", remove)]

def directories : List Path :=
  [⟨"/bin"⟩, ⟨"/usr/bin"⟩]

def shells : List Path :=
  directories.map (·.child "sh")

def at? (disk : Disk) (path : Path) : Option Resident :=
  match (disk.absolute path).components with
  | [.root, .name "bin", .name name] => names.lookup name
  | [.root, .name "usr", .name "bin", .name name] => names.lookup name
  | _ => none

end Resident

/-- A program with the name it is called by and its arguments. -/
structure Call where
  resident : Resident
  name : Octets
  arguments : List Octets

namespace Program

def runnable (disk : Disk) (path : Path) : Except DiskFault ByteArray := do
  match ← disk.node path with
  | .directory _ => .error .permissionDenied
  | .file _ false => .error .permissionDenied
  | .file content true => .ok content

/-- How much of a file is looked at for the program that reads it. -/
def headLimit : Nat := 256

def isGap (octet : Char) : Bool :=
  octet == ' ' || octet == '\t'

def endsPath (octet : Char) : Bool :=
  isGap octet || octet == '\x00'

/-- The line that names an interpreter, from what is looked at after the mark.  Without
a line feed it is all of that but the last octet, as long as the path is seen to end.
What a file lacks counts as zeros. -/
def interpreterLine? (afterMark : Octets) : Option Octets :=
  let line := afterMark.takeWhile (· != '\x00')
  if line.contains '\n' then some (line.takeWhile (· != '\n'))
  else
    let padded := afterMark ++ List.replicate (headLimit - 2 - afterMark.length) '\x00'
    if (padded.dropWhile isGap).any endsPath then some padded.dropLast else none

/-- The interpreter that the first line of a script names, with its argument. -/
def interpreter? (head : Octets) : Option (Octets × Option Octets) :=
  match head with
  | '#' :: '!' :: afterMark => do
      let line ← interpreterLine? afterMark
      let named := ((line.reverse.dropWhile isGap).reverse).dropWhile isGap
      let argument :=
        match named.dropWhile fun octet => !endsPath octet with
        | '\x00' :: _ | [] => none
        | gap => some ((gap.dropWhile isGap).takeWhile (· != '\x00'))
      if named.isEmpty then none
      else return (named.takeWhile fun octet => !endsPath octet, argument)
  | _ => none

/-- How many files may be looked at until one is a program and no script. -/
def interpreterLimit : Nat := 6

/-- What running a file starts.  A script is handed to its interpreter by its path.  An
empty path means the working directory, which may not be run. -/
def resolve (disk : Disk) : (depth : Nat) → (path : Path) → (name : Octets) →
    (arguments : List Octets) → Except DiskFault Call
  | 0, path, _, _ => do
      let _ ← runnable disk path
      .error .tooManyLevels
  | depth + 1, path, name, arguments => do
      let content ← runnable disk path
      match Resident.at? disk path with
      | some resident => return ⟨resident, name, arguments⟩
      | none =>
          match interpreter? (Octets.ofBytes (content.extract 0 headLimit)) with
          | none => .error .notExecutableFormat
          | some ([], _) => .error .permissionDenied
          | some (interpreter, option) =>
              resolve disk depth ⟨Octets.toText interpreter⟩ interpreter
                (option.toList ++ Octets.ofText path.text :: arguments)

def ofPath (disk : Disk) (path : Path) (name : Octets) (arguments : List Octets) :
    Except DiskFault Call :=
  resolve disk interpreterLimit path name arguments

/-- The place of a name below an entry.  A separator is always put between them, and the
empty entry is the working directory. -/
def below (entry : Path) (name : String) : Path :=
  if entry.text.isEmpty then ⟨name⟩ else ⟨entry.text ++ "/" ++ name⟩

/-- The places that a name may mean; one with a separator is a path. -/
def places (entries : List Path) (name : String) : List Path :=
  if name.toList.contains '/' then [⟨name⟩] else entries.map (below · name)

def entryLimit : Nat := 4095

/-- The entries that are looked at.  One that is too long counts as an empty one, and
for nothing at the end. -/
def withinLimit : List Path → List Path
  | [] => []
  | entry :: rest =>
      if entry.text.utf8ByteSize ≤ entryLimit then entry :: withinLimit rest
      else if rest.isEmpty then []
      else ⟨""⟩ :: withinLimit rest

/-- Whether a search goes on after a fault at one place. -/
def isPassedOver : DiskFault → Bool
  | .permissionDenied | .notFound | .notADirectory => true
  | _ => false

/-- Tries places until one succeeds or fails for good.  When none succeeds, a file
that may not be run is the reason, and without one what was wrong at the last place. -/
def firstOf {α : Type} (attempt : Path → Except DiskFault α) (reason : DiskFault) :
    List Path → Except DiskFault α
  | [] => .error reason
  | path :: rest =>
      match attempt path with
      | .ok result => .ok result
      | .error fault =>
          if isPassedOver fault then
            firstOf attempt (if reason = .permissionDenied then reason else fault) rest
          else .error fault

def attemptNamed {α : Type} (attempt : Path → Except DiskFault α) (searchPath name : String) :
    Except DiskFault α :=
  if name.isEmpty then .error .notFound
  else
    firstOf attempt .notFound (places (withinLimit (Path.searchDirectories searchPath)) name)

def call (disk : Disk) (searchPath name : String) (arguments : List Octets) :
    Except DiskFault Call :=
  attemptNamed (fun path => ofPath disk path (Octets.ofText name) arguments) searchPath name

/-- Runs a file by its path; one that does not say what reads it is read by the
shell. -/
def ofPathOrRead (disk : Disk) (path : Path) (name : Octets) (arguments : List Octets) :
    Except DiskFault Call :=
  match ofPath disk path name arguments with
  | .error .notExecutableFormat =>
      .ok ⟨.shell, "/bin/sh".toList, Octets.ofText path.text :: arguments⟩
  | outcome => outcome

/-- What calling a program by a name starts, when the shell reads files that are no
programs. -/
def callOrRead (disk : Disk) (searchPath name : String) (arguments : List Octets) :
    Except DiskFault Call :=
  attemptNamed (fun path => ofPathOrRead disk path (Octets.ofText name) arguments) searchPath name

/-- Tries all places in turn, as the shell does that looks a name up by itself.  No fault
ends its search, and the last one that says more than that there is no file is the reason. -/
def anyOf {α : Type} (attempt : Path → Except DiskFault α) (reason : DiskFault) :
    List Path → Except DiskFault α
  | [] => .error reason
  | path :: rest =>
      match attempt path with
      | .ok result => .ok result
      | .error .notFound | .error .notADirectory => anyOf attempt reason rest
      | .error fault => anyOf attempt fault rest

def placesOf (searchPath name : String) : List Path :=
  places (Path.searchDirectories searchPath) name

def find (disk : Disk) (searchPath name : String) : Except DiskFault Path :=
  anyOf (fun path => (runnable disk path).map fun _ => path) .notFound (placesOf searchPath name)

/-- The places of a name from the first file on that may be run. -/
def placesFromFound (disk : Disk) (searchPath name : String) : List Path :=
  (placesOf searchPath name).dropWhile fun path => (runnable disk path).toOption.isNone

/-- What the shell starts at the first place where something starts. -/
def startAny (disk : Disk) (places : List Path) (name : Octets) (arguments : List Octets) :
    Except DiskFault Call :=
  anyOf (fun path => ofPathOrRead disk path name arguments) .notFound places

end Program

end ElmAtlas.Shell
