import ElmAtlas.Shell.Numeral
import ElmAtlas.Shell.Session

/-!
# Arithmetic

Expressions of machine integers, worked out while they are read.  Where only one
of two operands counts, the other one is read without being worked out.
-/

namespace ElmAtlas.Shell

namespace Arithmetic

inductive Item where
  | number (value : Int64)
  | name (octets : Octets)
  | sign (text : String)
  | finish
  deriving DecidableEq

def signs : List String :=
  ["<<=", ">>=", "<<", ">>", "<=", ">=", "==", "!=", "&&", "||", "+=", "-=", "*=", "/=", "%=",
    "&=", "^=", "|=", "<", ">", "=", "!", "&", "|", "+", "-", "*", "/", "%", "^", "~", "(", ")",
    "?", ":"]

def item (octets : Octets) : Item × Octets :=
  match octets.dropWhile fun octet => octet == ' ' || octet == '\t' || octet == '\n' with
  | [] => (.finish, [])
  | octet :: rest =>
      if isNameStart octet then
        (.name (octet :: rest.takeWhile isNamePart), rest.dropWhile isNamePart)
      else
        match Numeral.unsigned? true (octet :: rest) with
        | some (value, after) => (.number (Int64.ofInt (Numeral.clamp value)), after)
        | none =>
            match signs.find? fun sign => sign.toList.isPrefixOf (octet :: rest) with
            | some sign => (.sign sign, (octet :: rest).drop sign.length)
            | none => (.sign (String.ofList [octet]), rest)

/-- How closely an operator binds; smaller is closer. -/
def rank? : Item → Option Nat
  | .sign text =>
      match text with
      | "*" | "/" | "%" => some 0
      | "+" | "-" => some 1
      | "<<" | ">>" => some 2
      | "<" | "<=" | ">" | ">=" => some 3
      | "==" | "!=" => some 4
      | "&" => some 5
      | "^" => some 6
      | "|" => some 7
      | _ => none
  | _ => none

/-- The operator inside an assignment sign; none inside a plain one. -/
def assigning? : Item → Option (Option String)
  | .sign text =>
      match text with
      | "=" => some none
      | "<<=" => some (some "<<")
      | ">>=" => some (some ">>")
      | "+=" | "-=" | "*=" | "/=" | "%=" | "&=" | "^=" | "|=" =>
          some (some (String.ofList (text.toList.take 1)))
      | _ => none
  | _ => none

def truth (condition : Bool) : Int64 :=
  if condition then 1 else 0

variable (whole : Octets)

def wrong {α : Type} (problem : String) : Act α :=
  Act.fail ("arithmetic expression: ".toList ++ problem.toList ++ ": \"".toList ++ whole ++ ['"'])

def apply (operator : String) (left right : Int64) : Act Int64 :=
  match operator with
  | "*" => return left * right
  | "/" => if right == 0 then wrong whole "division by zero" else return left / right
  | "%" => if right == 0 then wrong whole "division by zero" else return left % right
  | "+" => return left + right
  | "-" => return left - right
  | "<<" => return left <<< (right &&& 63)
  | ">>" => return left >>> (right &&& 63)
  | "<" => return truth (left < right)
  | "<=" => return truth (left ≤ right)
  | ">" => return truth (right < left)
  | ">=" => return truth (right ≤ left)
  | "==" => return truth (left == right)
  | "!=" => return truth (left != right)
  | "&" => return left &&& right
  | "^" => return left ^^^ right
  | _ => return left ||| right

/-- The number that a variable holds; an unset one holds zero. -/
def variableValue (name : Octets) : Act Int64 := do
  let text := ((← get).parameter? name).getD []
  let illegal : Act Int64 := Act.fail ("Illegal number: ".toList ++ text)
  match Numeral.read? true text with
  | some (value, rest) =>
      if rest.all Numeral.isBlank && Numeral.isInRange value then return Int64.ofInt value
      else illegal
  | none => if text.all Numeral.isBlank then return 0 else illegal

mutual

def operand : (fuel : Nat) → (isIdle : Bool) → Octets → Act (Int64 × Octets)
  | 0, _, rest => return (0, rest)
  | fuel + 1, isIdle, octets => do
      let (first, rest) := item octets
      match first with
      | .number value => return (value, rest)
      | .name name => if isIdle then return (0, rest) else return (← variableValue name, rest)
      | .sign "(" =>
          let (value, after) ← assignment fuel isIdle rest
          match item after with
          | (.sign ")", behind) => return (value, behind)
          | _ => wrong whole "expecting ')'"
      | .sign "+" => operand fuel isIdle rest
      | .sign "-" =>
          let (value, after) ← operand fuel isIdle rest
          return (-value, after)
      | .sign "!" =>
          let (value, after) ← operand fuel isIdle rest
          return (truth (value == 0), after)
      | .sign "~" =>
          let (value, after) ← operand fuel isIdle rest
          return (~~~value, after)
      | _ => wrong whole "expecting primary"

/-- Operators behind an operand, as long as they bind closer than `limit`. -/
def operators : (fuel : Nat) → (isIdle : Bool) → (limit : Nat) → Int64 → Octets →
    Act (Int64 × Octets)
  | 0, _, _, left, rest => return (left, rest)
  | fuel + 1, isIdle, limit, left, octets => do
      match item octets with
      | (.sign text, rest) =>
          match rank? (.sign text) with
          | none => return (left, octets)
          | some rank =>
              if limit ≤ rank then return (left, octets)
              let (first, after) ← operand fuel isIdle rest
              let (right, behind) ← operators fuel isIdle rank first after
              let value ← if isIdle then pure right else apply whole text left right
              operators fuel isIdle limit value behind
      | _ => return (left, octets)

def conjunction : (fuel : Nat) → (isIdle : Bool) → Octets → Act (Int64 × Octets)
  | 0, _, rest => return (0, rest)
  | fuel + 1, isIdle, octets => do
      let (first, after) ← operand fuel isIdle octets
      let (left, rest) ← operators fuel isIdle 8 first after
      match item rest with
      | (.sign "&&", more) =>
          let (right, behind) ← conjunction fuel (isIdle || left == 0) more
          return (truth (left != 0 && right != 0), behind)
      | _ => return (left, rest)

def disjunction : (fuel : Nat) → (isIdle : Bool) → Octets → Act (Int64 × Octets)
  | 0, _, rest => return (0, rest)
  | fuel + 1, isIdle, octets => do
      let (left, rest) ← conjunction fuel isIdle octets
      match item rest with
      | (.sign "||", more) =>
          let (right, behind) ← disjunction fuel (isIdle || left != 0) more
          return (truth (left != 0 || right != 0), behind)
      | _ => return (left, rest)

def conditional : (fuel : Nat) → (isIdle : Bool) → Octets → Act (Int64 × Octets)
  | 0, _, rest => return (0, rest)
  | fuel + 1, isIdle, octets => do
      let (condition, rest) ← disjunction fuel isIdle octets
      match item rest with
      | (.sign "?", more) =>
          let (positive, after) ← assignment fuel (isIdle || condition == 0) more
          match item after with
          | (.sign ":", other) =>
              let (negative, behind) ← conditional fuel (isIdle || condition != 0) other
              return (if condition != 0 then positive else negative, behind)
          | _ => wrong whole "expecting ':'"
      | _ => return (condition, rest)

def assignment : (fuel : Nat) → (isIdle : Bool) → Octets → Act (Int64 × Octets)
  | 0, _, rest => return (0, rest)
  | fuel + 1, isIdle, octets => do
      match item octets with
      | (.name name, rest) =>
          let (sign, more) := item rest
          match assigning? sign with
          | none => conditional fuel isIdle octets
          | some operator =>
              let (right, behind) ← assignment fuel isIdle more
              if isIdle then return (right, behind)
              let value ←
                match operator with
                | none => pure right
                | some operator => apply whole operator (← variableValue name) right
              Act.assign name (toString value).toList
              return (value, behind)
      | _ => conditional fuel isIdle octets

end

def evaluate : Act Int64 := do
  let (value, rest) ← assignment whole (8 * whole.length + 8) false whole
  match item rest with
  | (.finish, _) => return value
  | _ => wrong whole "expecting EOF"

end Arithmetic

end ElmAtlas.Shell
