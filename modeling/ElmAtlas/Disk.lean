import ElmAtlas.Failure
import ElmAtlas.Path.Normal

/-!
# File trees

A `Node` is a file or a directory with named entries.  A `Disk` is a tree seen
from a working directory.  Looking up a path walks the tree step by step, so
`a/..` is found only if `a` is a directory, and a path that ends in `/` leads to
directories only.  There are no links: a directory has one place.
-/

namespace ElmAtlas

inductive Node where
  | file (content : ByteArray) (isExecutable : Bool)
  | directory (entries : List (String × Node))

namespace Node

instance : Inhabited Node := ⟨.directory []⟩

/-- The node at a place, given by the names that lead to it. -/
def get? : Node → List String → Option Node
  | node, [] => some node
  | .directory entries, name :: names =>
      match entries.lookup name with
      | some entry => entry.get? names
      | none => none
  | .file _ _, _ :: _ => none

/-- Puts an entry into a list of entries, in place of one of the same name. -/
def putEntry (name : String) (node : Node) : List (String × Node) → List (String × Node)
  | [] => [(name, node)]
  | (head, entry) :: entries =>
      if head == name then (name, node) :: entries
      else (head, entry) :: putEntry name node entries

/-- Puts a node at a place.  Nothing changes when a directory on the way is
missing. -/
def put (node : Node) : List String → Node → Node
  | [], _ => node
  | [name], .directory entries => .directory (putEntry name node entries)
  | name :: next :: names, .directory entries =>
      match entries.lookup name with
      | some entry => .directory (putEntry name (node.put (next :: names) entry) entries)
      | none => .directory entries
  | _ :: _, .file content isExecutable => .file content isExecutable

/-- Takes the node at a place away. -/
def erase : List String → Node → Node
  | [], node => node
  | [name], .directory entries =>
      .directory (entries.filter fun entry => entry.1 != name)
  | name :: next :: names, .directory entries =>
      match entries.lookup name with
      | some entry => .directory (putEntry name (erase (next :: names) entry) entries)
      | none => .directory entries
  | _ :: _, .file content isExecutable => .file content isExecutable

end Node

inductive DiskFault where
  | notFound
  | notExecutableFormat
  | permissionDenied
  | busy
  | alreadyExists
  | notADirectory
  | isADirectory
  | nameTooLong
  | tooManyLevels
  | nulInPath
  | notText
  | wholeTreeMissing
  deriving DecidableEq, Repr

namespace DiskFault

def reason : DiskFault → String
  | notFound => "No such file or directory"
  | notExecutableFormat => "Exec format error"
  | permissionDenied => "Permission denied"
  | busy => "Device or resource busy"
  | alreadyExists => "File exists"
  | notADirectory => "Not a directory"
  | isADirectory => "Is a directory"
  | nameTooLong => "File name too long"
  | tooManyLevels => "Too many levels of symbolic links"
  | nulInPath => "file name contained an unexpected NUL byte"
  | notText => "stream did not contain valid UTF-8"
  | wholeTreeMissing => "failed to create whole tree"

/-- The number of a fault that the machine reports. -/
def number? : DiskFault → Option Nat
  | notFound => some 2
  | notExecutableFormat => some 8
  | permissionDenied => some 13
  | busy => some 16
  | alreadyExists => some 17
  | notADirectory => some 20
  | isADirectory => some 21
  | nameTooLong => some 36
  | tooManyLevels => some 40
  | nulInPath | notText | wholeTreeMissing => none

def message (fault : DiskFault) : String :=
  match fault.number? with
  | some number => s!"{fault.reason} (os error {number})"
  | none => fault.reason

end DiskFault

/-- One step of a walk through the tree. -/
inductive Step where
  | stay
  | up
  | down (name : String)
  deriving DecidableEq, Repr

namespace Path

/-- The steps of a path.  An empty piece stays where it is, which only a
directory allows. -/
def steps (path : Path) : List Step :=
  path.pieces.map fun piece =>
    if piece.isEmpty || piece == ['.'] then .stay
    else if piece == ['.', '.'] then .up
    else .down (String.ofList piece)

/-- The names of a path, in order. -/
def names (path : Path) : List String :=
  path.components.filterMap fun component =>
    match component with
    | .name text => some text
    | _ => none

end Path

structure Disk where
  top : Node
  cwd : Path

/-- What a request to write leaves: the disk afterwards and, if the request
failed, the reason.  A failed request may have made some directories. -/
structure Attempt (ε : Type) where
  disk : Disk
  fault : Option ε := none

namespace Attempt

variable {ε φ : Type}

/-- A request that changes nothing when it fails. -/
def ofExcept (disk : Disk) : Except ε Disk → Attempt ε
  | .ok changed => ⟨changed, none⟩
  | .error fault => ⟨disk, some fault⟩

/-- Goes on with the next request unless one has failed. -/
def andThen (attempt : Attempt ε) (next : Disk → Attempt ε) : Attempt ε :=
  match attempt.fault with
  | none => next attempt.disk
  | some _ => attempt

/-- Tells the reason in other words. -/
def mapFault (change : ε → φ) (attempt : Attempt ε) : Attempt φ :=
  ⟨attempt.disk, attempt.fault.map change⟩

end Attempt

namespace Disk

/-- The longest name of an entry, in bytes. -/
def nameLimit : Nat := 255

/-- The longest path, in bytes. -/
def pathLimit : Nat := 4095

/-- Walks from a place; each step needs a directory to stand on. -/
def walk (top : Node) : (place : List String) → List Step → Except DiskFault (List String)
  | place, [] => .ok place
  | place, step :: steps =>
      match top.get? place with
      | some (.directory entries) =>
          match step with
          | .stay => walk top place steps
          | .up => walk top place.dropLast steps
          | .down name =>
              if nameLimit < name.utf8ByteSize then .error .nameTooLong
              else if (entries.lookup name).isSome then walk top (place ++ [name]) steps
              else .error .notFound
      | some (.file _ _) => .error .notADirectory
      | none => .error .notFound

/-- A path that can be walked at all. -/
def checkPath (path : Path) : Except DiskFault Unit :=
  if path.text.toList.contains '\x00' then .error .nulInPath
  else if path.text.isEmpty then .error .notFound
  else if pathLimit < path.text.utf8ByteSize then .error .nameTooLong
  else .ok ()

/-- Where the steps of a path begin. -/
def start (disk : Disk) (path : Path) : List String :=
  if path.isAbsolute then [] else disk.cwd.names

/-- The place that a path leads to. -/
def locate (disk : Disk) (path : Path) : Except DiskFault (List String) := do
  checkPath path
  walk disk.top (disk.start path) path.steps

def node (disk : Disk) (path : Path) : Except DiskFault Node := do
  match disk.top.get? (← disk.locate path) with
  | some found => .ok found
  | none => .error .notFound

def isPresent (disk : Disk) (path : Path) : Bool :=
  match disk.node path with
  | .ok _ => true
  | .error _ => false

def isFile (disk : Disk) (path : Path) : Bool :=
  match disk.node path with
  | .ok (.file _ _) => true
  | _ => false

def isDirectory (disk : Disk) (path : Path) : Bool :=
  match disk.node path with
  | .ok (.directory _) => true
  | _ => false

def isExecutable (disk : Disk) (path : Path) : Bool :=
  match disk.node path with
  | .ok (.file _ executable) => executable
  | _ => false

def read (disk : Disk) (path : Path) : Except DiskFault ByteArray := do
  match ← disk.node path with
  | .file content _ => .ok content
  | .directory _ => .error .isADirectory

def readText (disk : Disk) (path : Path) : Except DiskFault String := do
  match String.fromUTF8? (← disk.read path) with
  | some text => .ok text
  | none => .error .notText

/-- The entries of a directory; none of anything else. -/
def entries (disk : Disk) (path : Path) : List (String × Node) :=
  match disk.node path with
  | .ok (.directory found) => found
  | _ => []

/-- The absolute normal form of a path. -/
def absolute (disk : Disk) (path : Path) : Path :=
  path.absolutize disk.cwd

/-- The steps without those at the end that stay. -/
def withoutStays (steps : List Step) : List Step :=
  (steps.reverse.dropWhile (· == .stay)).reverse

/-- Where a new entry would go: the place of its directory and its name. -/
def slot (disk : Disk) (path : Path) (steps : List Step) :
    Except DiskFault (Option (List String × String)) := do
  match steps.getLast? with
  | some (.down name) =>
      let place ← walk disk.top (disk.start path) (steps.dropLast ++ [.stay])
      if nameLimit < name.utf8ByteSize then .error .nameTooLong
      else return some (place, name)
  | _ =>
      let _ ← walk disk.top (disk.start path) steps
      return none

def makeDirectory (disk : Disk) (path : Path) : Except DiskFault Disk := do
  checkPath path
  match ← disk.slot path (withoutStays path.steps) with
  | some (place, name) =>
      if (disk.top.get? (place ++ [name])).isSome then .error .alreadyExists
      else return { disk with top := (Node.directory []).put (place ++ [name]) disk.top }
  | none => .error .alreadyExists

/-- Makes one directory that may be there already. -/
def ensureDirectory (disk : Disk) (path : Path) : Attempt DiskFault :=
  match disk.makeDirectory path with
  | .ok made => ⟨made, none⟩
  | .error fault => ⟨disk, if disk.isDirectory path then none else some fault⟩

/-- Makes a directory together with those above it that are missing; `fuel`
bounds how many there are. -/
def makeDirectoriesUpTo : (fuel : Nat) → Disk → Path → Attempt DiskFault
  | 0, disk, _ => ⟨disk, some .wholeTreeMissing⟩
  | fuel + 1, disk, path =>
      if path.text.isEmpty then
        ⟨disk, none⟩
      else
        match disk.makeDirectory path with
        | .error .notFound =>
            match path.parent? with
            | none => ⟨disk, some .wholeTreeMissing⟩
            | some parent =>
                (makeDirectoriesUpTo fuel disk parent).andThen (·.ensureDirectory path)
        | _ => disk.ensureDirectory path

/-- The directories above one that cannot be made stay. -/
def makeDirectories (disk : Disk) (path : Path) : Attempt DiskFault :=
  makeDirectoriesUpTo (path.depth + 2) disk path

/-- Writes a file in a directory that exists; a file that is there already
keeps its permission to run.  A path that ends in a separator names no file. -/
def writeFile (disk : Disk) (path : Path) (content : ByteArray) :
    Except DiskFault Disk := do
  checkPath path
  let bare : Path := ⟨String.ofList ((path.text.toList.reverse.dropWhile (· == '/')).reverse)⟩
  if bare != path then
    let _ ← walk disk.top (disk.start path) (bare.steps.dropLast ++ [.stay])
    .error .isADirectory
  match ← disk.slot path path.steps with
  | none => .error .isADirectory
  | some (place, name) =>
      match disk.top.get? (place ++ [name]) with
      | some (.directory _) => .error .isADirectory
      | some (.file _ executable) =>
          return { disk with top := (Node.file content executable).put (place ++ [name]) disk.top }
      | none =>
          return { disk with top := (Node.file content false).put (place ++ [name]) disk.top }

/-- Sets whether a file may be run. -/
def setExecutable (disk : Disk) (path : Path) (executable : Bool) : Disk :=
  match disk.locate path with
  | .ok place =>
      match disk.top.get? place with
      | some (.file content _) =>
          { disk with top := (Node.file content executable).put place disk.top }
      | _ => disk
  | .error _ => disk

/-- Deletes a file, or a directory with all that it holds. -/
def remove (disk : Disk) (path : Path) : Disk :=
  match disk.locate path with
  | .ok place => { disk with top := disk.top.erase place }
  | .error _ => disk

/-- Whether a file can be given a path as its name: a path that ends in a
separator names directories only, and one that ends in dots names a directory
that is in use. -/
def checkFileName (disk : Disk) (path : Path) : Except DiskFault Unit := do
  checkPath path
  match path.pieces.reverse.dropWhile List.isEmpty with
  | [] => .error .busy
  | piece :: _ =>
      if piece == ['.'] || piece == ['.', '.'] then
        let _ ← disk.locate path
        .error .busy
      else if (path.pieces.getLast?.map List.isEmpty).getD false then
        let _ ← disk.slot path (withoutStays path.steps)
        .error .notADirectory

/-- Writes a file under a path that can be its name. -/
def nameFile (disk : Disk) (path : Path) (content : ByteArray) : Except DiskFault Disk := do
  disk.checkFileName path
  disk.writeFile path content

/-- Replaces a file as a whole, making the directories above it.  The new file
is complete before it takes the place of the old one. -/
def replaceFile (disk : Disk) (path : Path) (content : String) : Attempt Failure :=
  let parent := path.directory
  let ready := (disk.makeDirectories parent).mapFault fun fault =>
    ⟨s!"failed to create directory: {parent}", [fault.message]⟩
  ready.andThen fun disk =>
    match disk.nameFile path content.toUTF8 with
    | .ok written => ⟨written.setExecutable path false, none⟩
    | .error fault =>
        ⟨disk, some ⟨s!"failed to write file: {path}",
          [s!"failed to persist temporary file: {fault.message}", fault.message]⟩⟩

end Disk

end ElmAtlas
