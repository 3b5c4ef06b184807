import ElmAtlas.Path.Search
import ElmAtlas.Shell.Builtin.Options
import ElmAtlas.Shell.Condition
import ElmAtlas.Shell.Printing

/-!
# Built-in commands that print or test
-/

namespace ElmAtlas.Shell.Builtin

open Act

def succeed (_ : List Octets) : Act Unit :=
  setStatus 0

def echo (arguments : List Octets) : Act Unit := do
  emit (Printing.echo arguments)
  setStatus 0

/-- `printf`: complaints about arguments come before the output. -/
def printf (arguments : List Octets) : Act Unit := do
  match ← operands arguments with
  | [] => failText "usage: printf format [arg ...]"
  | format :: rest =>
      let printed := Printing.printf format rest
      printed.complaints.forM complain
      match printed.fault with
      | some fault =>
          complain fault
          emit printed.output
          setStatus 2
      | none =>
          emit printed.output
          setStatus (if printed.complaints.isEmpty then 0 else 1)

def test (arguments : List Octets) : Act Unit := do
  match Condition.decide (← get).disk (arguments.length + 1) arguments with
  | .ok value => setStatus (if value then 0 else 1)
  | .error problem => fail problem

/-- The last argument of `[` closes it. -/
def bracket (arguments : List Octets) : Act Unit :=
  if (arguments.getLast?.bind List.head?) == some ']' then test arguments.dropLast
  else failText "missing ]"

def printPlace (_ : List Octets) : Act Unit := do
  emit (Octets.ofText (← get).disk.cwd.text ++ ['\n'])
  setStatus 0

def enter (place : Path) : Act Unit := do
  let session ← get
  let before := Octets.ofText session.disk.cwd.text
  let disk := session.disk
  set { session with disk := { disk with cwd := place } }
  let exporting (name : String) (value : Octets) : Act Unit := do
    assign name.toList value
    modify fun session =>
      let binding := (session.binding? name.toList).getD {}
      session.bind name.toList (some { binding with isExported := true })
  exporting "OLDPWD" before
  exporting "PWD" (Octets.ofText place.text)

/-- Whether a directory is looked up in a list of directories. -/
def isSearched (target : Octets) : Bool :=
  match target with
  | '/' :: _ | ['.'] | '.' :: '/' :: _ | ['.', '.'] | '.' :: '.' :: '/' :: _ => false
  | _ => true

/-- The directories that a target may mean, and whether the one that is taken is
told. -/
def targets (session : Session) (target : Octets) : List (Path × Bool) :=
  let path : Path := ⟨Octets.toText target⟩
  let listed :=
    match isSearched target, session.value? "CDPATH".toList with
    | true, some searchPath => Path.searchDirectories (Octets.toText searchPath)
    | _, _ => []
  listed.map (fun directory => (directory.join path, !directory.text.isEmpty)) ++ [(path, false)]

/-- `cd`: goes to a directory, `-` to the one before. -/
def changeDirectory (arguments : List Octets) : Act Unit := do
  let (_, operands) ← options "LP" "" arguments
  let session ← get
  let isBack := operands.head? == some ['-']
  let target :=
    match operands with
    | [] => session.textOf "HOME"
    | ['-'] :: _ => session.textOf "OLDPWD"
    | target :: _ => target
  let meant := if target.isEmpty then ['.'] else target
  let places := (targets session meant).map fun (path, isTold) =>
    (session.disk.absolute path, isTold)
  match places.find? fun place => session.disk.isDirectory place.1 with
  | some (place, isTold) =>
      enter place
      if isBack || isTold then emit (Octets.ofText place.text ++ ['\n'])
      setStatus 0
  | none => fail ("can't cd to ".toList ++ target)

def octalText (mask : Nat) : Octets :=
  let digits := Nat.toDigits 8 mask
  List.replicate (4 - digits.length) '0' ++ digits

/-- The permissions that new files get, for the owner, the group and others. -/
def symbolicText (mask : Nat) : Octets :=
  let letters (place : Nat) : Octets :=
    let missing := mask / Nat.pow 8 place % 8
    ([('r', 4), ('w', 2), ('x', 1)].filter fun entry => missing / entry.2 % 2 == 0).map Prod.fst
  "u=".toList ++ letters 2 ++ ",g=".toList ++ letters 1 ++ ",o=".toList ++ letters 0

/-- The permissions of the owner, the group and others; a clause changes those of
some of them. -/
abbrev Permissions := Nat × Nat × Nat

def permissionBits (old : Permissions) (letters : Octets) : Nat :=
  letters.foldl
    (fun bits letter =>
      bits ||| match letter with
        | 'r' => 4
        | 'w' => 2
        | 'x' => 1
        | 'u' => old.1
        | 'g' => old.2.1
        | 'o' => old.2.2
        | 'X' => if (old.1 ||| old.2.1 ||| old.2.2) % 2 == 1 then 1 else 0
        | _ => 0)
    0

/-- Changes permissions by signs and letters, up to the end of the clause; none
when a sign is missing. -/
def changePermissions? (old : Permissions) (who : Octets) :
    (fuel : Nat) → Octets → Permissions → Option (Permissions × Octets)
  | 0, _, _ => none
  | fuel + 1, octets, new =>
      match octets with
      | sign :: rest =>
          let letters := rest.takeWhile fun letter => "rwxugoXs".toList.contains letter
          let behind := rest.drop letters.length
          let bits := permissionBits old letters
          let isMeant (letter : Char) : Bool :=
            who.isEmpty || who.contains 'a' || who.contains letter
          let change (letter : Char) (before : Nat) : Nat :=
            if !isMeant letter then before
            else if sign == '+' then before ||| bits
            else if sign == '-' then before - (before &&& bits)
            else bits
          let changed := (change 'u' new.1, change 'g' new.2.1, change 'o' new.2.2)
          if sign != '+' && sign != '-' && sign != '=' then none
          else if behind.isEmpty || behind.head? == some ',' then some (changed, behind)
          else changePermissions? old who fuel behind changed
      | [] => none

def permissions? (old : Permissions) : (fuel : Nat) → Octets → Permissions → Option Permissions
  | 0, _, new => some new
  | fuel + 1, octets, new =>
      let who := octets.takeWhile fun letter => "augo".toList.contains letter
      match changePermissions? old who (octets.length + 1) (octets.drop who.length) new with
      | some (changed, _ :: rest) =>
          if rest.isEmpty then some changed else permissions? old fuel rest changed
      | some (changed, []) => some changed
      | none => none

/-- `umask`: shows or sets the permissions that new files lack. -/
def mask (arguments : List Octets) : Act Unit := do
  let (given, operands) ← options "S" "" arguments
  setStatus 0
  let session ← get
  match operands with
  | [] =>
      let shown := if given.isEmpty then octalText session.mask else symbolicText session.mask
      emit (shown ++ ['\n'])
  | operand :: _ =>
      if (operand.head?.map Char.isDigit).getD false then
        if operand.all fun octet => '0' ≤ octet && octet ≤ '7' then
          set { session with mask := (Numeral.digits 8 0 operand).1 % 512 }
        else fail ("Illegal number: ".toList ++ operand)
      else
        let granted (place : Nat) : Nat := 7 - session.mask / Nat.pow 8 place % 8
        let old := (granted 2, granted 1, granted 0)
        match permissions? old (operand.length + 1) operand old with
        | some (owner, group, others) =>
            set { session with mask := 511 - (64 * owner + 8 * group + others) }
        | none => fail ("Illegal mode: ".toList ++ operand)

end ElmAtlas.Shell.Builtin
