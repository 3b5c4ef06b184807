import ElmAtlas.Shell.Word

/-!
# Sources

A source is a script together with the place that was reached in it.  A reader
takes octets away from the front of a source, or fails and says on which line and
why.
-/

namespace ElmAtlas.Shell

inductive Operator where
  | newline
  | semicolon
  | doubleSemicolon
  | background
  | both
  | either
  | pipe
  | opening
  | closing
  deriving DecidableEq, Repr

/-- What a redirection does with its descriptor. -/
inductive Direction where
  | input
  | output
  | clobber
  | append
  | both
  | fromDescriptor
  | toDescriptor
  | document (stripsTabs : Bool)
  deriving DecidableEq, Repr

inductive Token where
  | word (word : Word)
  | operator (operator : Operator)
  | redirection (descriptor : Option Nat) (direction : Direction)
  | finish

/-- `afterLine` is where reading goes on behind the end of the line, when
documents that the line announces stand there.  A token that was read too early
waits in `returned`.  Aliases stand for other octets where a command begins;
those in `replaced` were put in with so many octets behind them. -/
structure Source where
  octets : Octets
  line : Nat
  afterLine : Option (Octets × Nat) := none
  returned : Option Token := none
  aliases : List (Octets × Octets) := []
  replaced : List (Octets × Nat) := []

structure SyntaxFault where
  line : Nat
  problem : String
  deriving DecidableEq, Repr

abbrev Reader := EStateM SyntaxFault Source

namespace Read

def fault {α : Type} (problem : String) : Reader α := do
  throw ⟨(← get).line, problem⟩

def peek : Reader (Option Char) := do
  return (← get).octets.head?

/-- Takes one octet; line ends are counted. -/
def next : Reader (Option Char) := do
  let source ← get
  match source.octets with
  | [] => return none
  | octet :: rest =>
      let line := if octet == '\n' then source.line + 1 else source.line
      set { source with octets := rest, line := line }
      return some octet

def skip : Reader Unit := do
  let _ ← next

def dropJoins : Octets → Nat → Octets × Nat
  | '\\' :: '\n' :: rest, line => dropJoins rest (line + 1)
  | octets, line => (octets, line)

def skipJoins : Reader Unit := do
  let source ← get
  let (octets, line) := dropJoins source.octets source.line
  set { source with octets := octets, line := line }

def peekJoined : Reader (Option Char) := do
  skipJoins
  peek

def accept (octet : Char) : Reader Bool := do
  if (← peekJoined) == some octet then
    skip
    return true
  else
    return false

/-- Takes octets while a condition holds; lines may be joined between them.
`fuel` bounds their number. -/
def takeWhile (condition : Char → Bool) : (fuel : Nat) → Reader Octets
  | 0 => return []
  | fuel + 1 => do
      match ← peekJoined with
      | none => return []
      | some octet =>
          if condition octet then
            skip
            return octet :: (← takeWhile condition fuel)
          else
            return []

end Read

end ElmAtlas.Shell
