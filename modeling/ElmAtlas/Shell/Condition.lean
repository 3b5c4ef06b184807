import ElmAtlas.Disk
import ElmAtlas.Shell.Device
import ElmAtlas.Shell.Numeral

/-!
# Conditions

What the command `test` decides.  Arguments are read from left to right: an
operator in front of one operand, between two, or the connectives `-o`, `-a` and
`!`, of which the later ones bind closer.  A reader stands on an argument and
returns the arguments from the last one that it used on.
-/

namespace ElmAtlas.Shell

namespace Condition

inductive Kind where
  | unary
  | binary
  | negation
  | conjunction
  | disjunction
  | opening
  | closing
  deriving DecidableEq, Repr

def kind? (argument : Octets) : Option Kind :=
  match String.ofList argument with
  | "-r" | "-w" | "-x" | "-e" | "-f" | "-d" | "-c" | "-b" | "-p" | "-u" | "-g" | "-k" | "-s"
  | "-t" | "-z" | "-n" | "-h" | "-O" | "-G" | "-L" | "-S" => some .unary
  | "=" | "!=" | "<" | ">" | "-eq" | "-ne" | "-ge" | "-gt" | "-le" | "-lt" | "-nt" | "-ot"
  | "-ef" => some .binary
  | "!" => some .negation
  | "-a" => some .conjunction
  | "-o" => some .disjunction
  | "(" => some .opening
  | ")" => some .closing
  | _ => none

/-- Whether an operator for one operand is itself an operand, because nothing or
a comparison follows it. -/
def isOperand : List Octets → Bool
  | [] => true
  | [_] => false
  | next :: _ => kind? next == some .binary

/-- What the first argument is where it stands; none for an operand. -/
def reading : List Octets → Option Kind
  | [] => none
  | argument :: rest =>
      match kind? argument with
      | some .unary => if isOperand rest then none else some .unary
      | some .opening => if rest.isEmpty then none else some .opening
      | found => found

abbrev Decision := Except Octets

def problem {α : Type} (operator : Octets) (text : String) : Decision α :=
  if operator.isEmpty then .error text.toList else .error (operator ++ ": ".toList ++ text.toList)

def number (operand : Octets) : Decision Int :=
  match Numeral.decimal? operand with
  | some value => .ok value
  | none => .error ("Illegal number: ".toList ++ operand)

def pathOf (operand : Octets) : Path :=
  ⟨Octets.toText operand⟩

def isEmptyFile (disk : Disk) (path : Path) : Bool :=
  match disk.read path with
  | .ok content => content.isEmpty
  | .error _ => true

def unary (disk : Disk) (operator operand : Octets) : Decision Bool := do
  let path := pathOf operand
  let device := Device.ofPath? path
  match String.ofList operator with
  | "-n" => return !operand.isEmpty
  | "-z" => return operand.isEmpty
  | "-e" | "-r" | "-w" | "-O" | "-G" => return device.isSome || disk.isPresent path
  | "-f" => return disk.isFile path
  | "-d" => return disk.isDirectory path
  | "-c" => return device == some .null
  | "-x" => return disk.isExecutable path || disk.isDirectory path
  | "-s" => return disk.isDirectory path || !isEmptyFile disk path
  | "-t" =>
      let _ ← number operand
      return false
  | _ => return false

def binary (disk : Disk) (left operator right : Octets) : Decision Bool := do
  let compare (relation : Int → Int → Bool) : Decision Bool := do
    return relation (← number left) (← number right)
  match String.ofList operator with
  | "=" => return left == right
  | "!=" => return left != right
  | "<" => return String.ofList left < String.ofList right
  | ">" => return String.ofList right < String.ofList left
  | "-eq" => compare (· == ·)
  | "-ne" => compare (· != ·)
  | "-lt" => compare (· < ·)
  | "-le" => compare (· ≤ ·)
  | "-gt" => compare (· > ·)
  | "-ge" => compare (· ≥ ·)
  | "-ef" =>
      return disk.isPresent (pathOf left) &&
        (disk.locate (pathOf left)).toOption == (disk.locate (pathOf right)).toOption
  | _ => return false

variable (disk : Disk)

mutual

def disjunction : (fuel : Nat) → List Octets → Decision (Bool × List Octets)
  | 0, arguments => .ok (false, arguments)
  | fuel + 1, arguments => do
      let (left, place) ← conjunction fuel arguments
      if reading place.tail == some .disjunction then
        let (right, after) ← disjunction fuel (place.drop 2)
        return (left || right, after)
      else return (left, place)

def conjunction : (fuel : Nat) → List Octets → Decision (Bool × List Octets)
  | 0, arguments => .ok (false, arguments)
  | fuel + 1, arguments => do
      let (left, place) ← negation fuel arguments
      if reading place.tail == some .conjunction then
        let (right, after) ← conjunction fuel (place.drop 2)
        return (left && right, after)
      else return (left, place)

def negation : (fuel : Nat) → List Octets → Decision (Bool × List Octets)
  | 0, arguments => .ok (false, arguments)
  | fuel + 1, arguments => do
      if reading arguments == some .negation then
        let (value, place) ←
          if arguments.tail.isEmpty then pure (false, arguments)
          else negation fuel arguments.tail
        return (!value, place)
      else primary fuel arguments

def primary : (fuel : Nat) → List Octets → Decision (Bool × List Octets)
  | 0, arguments => .ok (false, arguments)
  | fuel + 1, arguments =>
      match arguments with
      | [] => .ok (false, [])
      | first :: rest =>
          match reading arguments with
          | some .opening =>
              if reading rest == some .closing then .ok (false, rest)
              else do
                let (value, place) ← disjunction fuel rest
                if reading place.tail == some .closing then return (value, place.tail)
                else problem [] "closing paren expected"
          | some .unary =>
              match rest with
              | [] => problem first "argument expected"
              | operand :: _ => do return (← unary disk first operand, rest)
          | _ =>
              match rest with
              | operator :: behind =>
                  if reading rest == some .binary then
                    match behind with
                    | [] => problem operator "argument expected"
                    | right :: _ => do return (← binary disk first operator right, behind)
                  else .ok (!first.isEmpty, arguments)
              | [] => .ok (!first.isEmpty, arguments)

end

def anyLength (arguments : List Octets) : Decision Bool := do
  let (value, place) ← disjunction disk (4 * arguments.length + 8) arguments
  match place with
  | first :: _ :: _ => problem first "unexpected operator"
  | _ => return value

/-- A comparison of two operands wins over the other readings of three
arguments. -/
def compared (arguments : List Octets) : Decision Bool :=
  match arguments with
  | [left, operator, right] =>
      if kind? operator == some .binary then binary disk left operator right
      else anyLength disk arguments
  | _ => anyLength disk arguments

/-- Decides a condition.  Up to four arguments may stand in brackets or behind a
negation as a whole. -/
def decide : (fuel : Nat) → List Octets → Decision Bool
  | 0, _ => .ok false
  | _ + 1, [] => .ok false
  | fuel + 1, arguments =>
      let isComparison :=
        match arguments with
        | [_, operator, _] => kind? operator == some .binary
        | _ => false
      if isComparison || !(arguments.length == 3 || arguments.length == 4) then
        compared disk arguments
      else if arguments.head? == some ['('] && arguments.getLast? == some [')'] then
        decide fuel (arguments.drop 1).dropLast
      else if arguments.head? == some ['!'] then (decide fuel arguments.tail).map not
      else anyLength disk arguments

end Condition

end ElmAtlas.Shell
