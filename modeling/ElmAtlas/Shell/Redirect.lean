import ElmAtlas.Shell.Device
import ElmAtlas.Shell.Expansion

/-!
# Redirections at work

First the targets of all redirections of a command are expanded, and a failure
there stops the script.  Then they are opened from left to right, and one that
cannot be opened only keeps its command from running.
-/

namespace ElmAtlas.Shell

/-- What a descriptor is to be joined to. -/
inductive Target where
  | file (name : Octets)
  | descriptor (number : Nat)
  | nothing
  | document (content : Word)

namespace Redirect

/-- Refuses a file: one that is not there has words of its own. -/
def refuse (request missing : String) (name : Octets) (fault : DiskFault) : Act Unit :=
  let reason :=
    match fault with
    | .notFound | .notADirectory => missing
    | _ => fault.reason
  Act.fail (request.toList ++ [' '] ++ name ++ ": ".toList ++ reason.toList)

def refuseOpening (name : Octets) (fault : DiskFault) : Act Unit :=
  refuse "cannot open" "No such file" name fault

def refuseCreating (name : Octets) (fault : DiskFault) : Act Unit :=
  refuse "cannot create" "Directory nonexistent" name fault

def openToRead (descriptor : Nat) (name : Octets) : Act Unit := do
  let session ← get
  let path : Path := ⟨Octets.toText name⟩
  match session.disk.locate path with
  | .error fault => refuseOpening name fault
  | .ok place =>
      set (session.joinNew descriptor
        (.file { place := place, canRead := session.disk.isFile path }))

/-- Opens a file to be written.  It is made when it is missing, and emptied unless
`keeps` says otherwise. -/
def openToWrite (descriptor : Nat) (name : Octets) (opened : OpenFile) (keeps : Bool) :
    Act Unit := do
  let session ← get
  let path : Path := ⟨Octets.toText name⟩
  let outcome :=
    if keeps && session.disk.isFile path then .ok session.disk
    else session.disk.writeFile path ByteArray.empty
  match outcome with
  | .error fault => refuseCreating name fault
  | .ok disk =>
      match disk.locate path with
      | .error fault => refuseCreating name fault
      | .ok place =>
          set ({ session with disk := disk }.joinNew descriptor
            (.file { opened with place := place, canWrite := true }))

def openFile (descriptor : Nat) (direction : Direction) (name : Octets) : Act Unit := do
  let session ← get
  let path : Path := ⟨Octets.toText name⟩
  match Device.ofPath? (session.disk.absolute path) with
  | some .null => set (session.joinNew descriptor .void)
  | some (.descriptor number) =>
      match session.streamOf? number with
      | some (index, _) => set (session.join descriptor index)
      | none =>
          if direction == .input then refuseOpening name .notFound
          else refuseCreating name .notFound
  | none =>
      match direction with
      | .append => openToWrite descriptor name { place := [], appends := true } true
      | .both => openToWrite descriptor name { place := [], canRead := true } true
      | .clobber => openToWrite descriptor name { place := [] } false
      | .output =>
          if session.has 'C' && session.disk.isFile path then
            refuseCreating name .alreadyExists
          else openToWrite descriptor name { place := [] } false
      | _ => openToRead descriptor name

variable (substitute : Substitute)

/-- The descriptor that a target names; a dash closes. -/
def descriptorTarget (text : Octets) : Act Target := do
  match text with
  | ['-'] => return .nothing
  | [octet] => if octet.isDigit then return .descriptor (octet.toNat - 48)
  | _ => pure ()
  modify fun session => { session with line := session.reached }
  Act.failText "Syntax error: Bad fd number"

def target (redirection : Redirection) : Act Target := do
  match redirection.direction with
  | .document _ => return .document redirection.target
  | .fromDescriptor | .toDescriptor =>
      descriptorTarget (← Expand.text substitute redirection.target)
  | _ => return .file (← Expand.text substitute redirection.target)

def targets : List Redirection → Act (List (Redirection × Target))
  | [] => return []
  | redirection :: rest => do
      let found ← target substitute redirection
      return (redirection, found) :: (← targets rest)

/-- Joins the descriptor of a redirection to its target.  `isBrief` says that the
descriptor is put back later; it is closed then before it is joined to another
one. -/
def openOne (isBrief : Bool) (redirection : Redirection) (target : Target) : Act Unit := do
  let descriptor := redirection.descriptor
  match target with
  | .file name => openFile descriptor redirection.direction name
  | .nothing => modify fun session => session.close descriptor
  | .document content =>
      let octets ← Expand.document substitute content
      modify fun session => session.joinNew descriptor (.channel octets)
  | .descriptor number =>
      if number != descriptor then
        match (← get).streamOf? number with
        | some (index, _) => modify fun session => session.join descriptor index
        | none =>
            if isBrief then modify fun session => session.close descriptor
            Act.fail ((toString number).toList ++ ": Bad file descriptor".toList)

/-- Opens the targets one after another; stops at the first that cannot be
opened. -/
def openAll (isBrief : Bool) : List (Redirection × Target) → Act Unit
  | [] => return ()
  | (redirection, target) :: rest => do
      openOne substitute isBrief redirection target
      openAll isBrief rest

def tryOpenAll (opened : List (Redirection × Target)) : Act Bool := do
  try
    openAll substitute true opened
    return true
  catch stop =>
    if stop == .failed then return false else throw stop

def restore (before : List (Nat × Nat)) (redirections : List Redirection) (session : Session) :
    Session :=
  redirections.foldl
    (fun session redirection =>
      match before.lookup redirection.descriptor with
      | some index => session.join redirection.descriptor index
      | none => session.close redirection.descriptor)
    session

end Redirect

end ElmAtlas.Shell
