import ElmAtlas.Shell.Arithmetic
import ElmAtlas.Shell.Fields

/-!
# Expansion

Expansion puts parameters, the output of scripts and the values of expressions
into words.  It works on the session, because it may set variables and run
scripts, and it stops when a parameter that has to be set is not.
-/

namespace ElmAtlas.Shell

/-- Runs a script that begins on a line and gives its output. -/
abbrev Substitute := Octets → Nat → Act Octets

namespace Expand

/-- The home directory that a tilde with a user name stands for. -/
def homeOf? (session : Session) (user : Octets) : Option Octets :=
  if user.isEmpty then session.value? "HOME".toList
  else if user == "root".toList then some "/root".toList
  else none

/-- Replaces a tilde in front of octets: the home directory and what is behind it.
`isClosed` says that nothing more belongs to the user name. -/
def tilde? (session : Session) (isClosed : Bool) : Octets → Option (Octets × Octets)
  | '~' :: octets =>
      let behind := octets.dropWhile (· != '/')
      if behind.isEmpty && !isClosed then none
      else (homeOf? session (octets.takeWhile (· != '/'))).map (·, behind)
  | _ => none

inductive Tildes where
  | nowhere
  | atStart
  | inValue
  deriving DecidableEq, Repr

/-- What words are expanded for: `splits` when fields are wanted, `isInner` inside
a modified parameter, where unquoted text is split as well. -/
structure Purpose where
  splits : Bool
  isInner : Bool
  tildes : Tildes

namespace Purpose

def text (tildes : Tildes) : Purpose :=
  ⟨false, false, tildes⟩

def inner (purpose : Purpose) : Purpose :=
  ⟨purpose.splits, true, .atStart⟩

def plain (purpose : Purpose) (octets : Octets) : Piece :=
  if purpose.isInner && purpose.splits then .inserted octets else .text octets false

def tilded (purpose : Purpose) (session : Session) (isClosed : Bool) (octets : Octets) :
    List Piece :=
  match tilde? session isClosed octets with
  | some (home, behind) => [.text home true, purpose.plain behind]
  | none => [purpose.plain octets]

/-- Unquoted text of a value, where tildes behind colons count too. -/
def valued (purpose : Purpose) (session : Session) (isStart isLast : Bool) :
    List Octets → List Piece
  | [] => []
  | [octets] =>
      if isStart then purpose.tilded session isLast octets else [purpose.plain octets]
  | octets :: next :: rest =>
      (if isStart then purpose.tilded session true octets else [purpose.plain octets]) ++
        purpose.plain [':'] :: valued purpose session true isLast (next :: rest)

/-- The pieces of unquoted text at a place in its word. -/
def unquoted (purpose : Purpose) (session : Session) (isStart isLast : Bool) (octets : Octets) :
    List Piece :=
  match purpose.tildes with
  | .nowhere => [purpose.plain octets]
  | .atStart => if isStart then purpose.tilded session isLast octets else [purpose.plain octets]
  | .inValue => purpose.valued session isStart isLast (Text.split (· == ':') octets)

end Purpose

/-- How the list of all arguments is written in one text. -/
def joinedArguments (session : Session) : Octets :=
  let separator :=
    match session.value? "IFS".toList with
    | some separators => separators.take 1
    | none => [' ']
  Text.join separator session.arguments

def separateArguments : List Octets → List Piece
  | [] => []
  | [argument] => [.text argument true]
  | argument :: next :: rest =>
      .text argument true :: .boundary :: separateArguments (next :: rest)

def isList (name : Octets) : Bool :=
  name == ['@'] || name == ['*']

def parameter? (session : Session) (name : Octets) (isQuoted splits : Bool) :
    Option (List Piece) :=
  let put (octets : Octets) : List Piece :=
    if isQuoted then [.text octets true] else [.inserted octets]
  if !isList name then (session.parameter? name).map put
  else if !splits then some (put (joinedArguments session))
  else if isQuoted then
    if name == ['@'] then some (separateArguments session.arguments)
    else some (put (joinedArguments session))
  else
    let separator := if (session.value? "IFS".toList).isSome then ['\x00'] else [' ']
    some (put (Text.join separator session.arguments))

def sizeOf (session : Session) (name : Octets) : Nat :=
  if isList name then (joinedArguments session).length
  else ((session.parameter? name).getD []).length

def isUnset (session : Session) (name : Octets) (emptyIsUnset : Bool) : Bool :=
  if isList name then
    emptyIsUnset && (Text.join [' '] session.arguments).isEmpty
  else
    match session.parameter? name with
    | none => true
    | some value => emptyIsUnset && value.isEmpty

def requireSet (name : Octets) : Act Unit := do
  let session ← get
  if session.has 'u' && isUnset session name false then
    Act.fail (name ++ ": parameter not set".toList)

def number (value : Nat) : Octets :=
  (toString value).toList

def put (octets : Octets) (isQuoted : Bool) : Piece :=
  if isQuoted then .text octets true else .inserted octets

/-- A list of arguments is cut like one text, at its start as far as the first of them
goes. -/
def cutStart (pattern : Pattern) (longest : Bool) : List Octets → List Octets
  | [] => []
  | first :: rest =>
      if longest && !rest.isEmpty && pattern.isMatch first then [[]]
      else pattern.cutStart longest first :: rest

/-- Cuts the last of some texts, given from the last one on, that can be cut. -/
def cutLast (pattern : Pattern) : List Octets → Option (List Octets)
  | [] => none
  | last :: before =>
      match pattern.beforeEnd? false last with
      | some kept => some (kept :: before)
      | none => cutLast pattern before

def cutEnd (pattern : Pattern) (longest : Bool) (texts : List Octets) : List Octets :=
  if longest then
    match texts with
    | [] => []
    | first :: _ =>
        match pattern.beforeEnd? true first with
        | some kept => [kept]
        | none => texts
  else
    match cutLast pattern texts.reverse with
    | some kept => kept.reverse
    | none => texts

def changed (session : Session) (name : Octets) (isQuoted splits : Bool)
    (change : List Octets → List Octets) : List Piece :=
  let isSeparate := splits && name == ['@'] && isQuoted
  if isSeparate then separateArguments (change session.arguments)
  else
    let found := (parameter? session name isQuoted splits).getD []
    let texts := Text.split (· == '\x00') (Piece.joined found)
    [put (Text.join ['\x00'] (change texts)) isQuoted]

variable (substitute : Substitute)

mutual

/-- The pieces that a fragment stands for, at the start or the end of its word or
inside it. -/
def fragment (purpose : Purpose) (isStart isLast : Bool) : Fragment → Act (List Piece)
  | .text octets isQuoted => do
      if isQuoted then return [.text octets true]
      else return purpose.unquoted (← get) isStart isLast octets
  | .parameter name isQuoted => do
      requireSet name
      return (parameter? (← get) name isQuoted purpose.splits).getD [put [] isQuoted]
  | .size name isQuoted => do
      requireSet name
      return [put (number (sizeOf (← get) name)) isQuoted]
  | .malformed => Act.failText "Bad substitution"
  | .substitution script line isQuoted => do
      return [put (← substitute script line) isQuoted]
  | .arithmetic body isQuoted => do
      let pieces ← word (.text .nowhere) true body
      let value ← Arithmetic.evaluate (Piece.joined pieces)
      return [put (toString value).toList isQuoted]
  | .modified name modifier emptyIsUnset body isQuoted => do
      let session ← get
      let isUnset := isUnset session name emptyIsUnset
      let found := (parameter? session name isQuoted purpose.splits).getD [put [] isQuoted]
      match modifier with
      | .orElse => if isUnset then word purpose.inner true body else return found
      | .instead =>
          if isUnset then return [put [] isQuoted] else word purpose.inner true body
      | .orAssign =>
          if !isUnset then return found
          let value := Piece.joined (← word (.text .atStart) true body)
          if !isName name then Act.fail (name ++ ": bad variable name".toList)
          Act.assign name value
          return [put value isQuoted]
      | .orFail =>
          if !isUnset then return found
          let told := Piece.joined (← word (.text .atStart) true body)
          let reason :=
            if !body.isEmpty then told
            else if emptyIsUnset then "parameter not set or null".toList
            else "parameter not set".toList
          Act.fail (name ++ ": ".toList ++ reason)
      | .withoutStart longest =>
          requireSet name
          if isUnset then return found
          let pattern := Pattern.ofMarked (Piece.marked (← word (.text .atStart) true body))
          return changed session name isQuoted purpose.splits (cutStart pattern longest)
      | .withoutEnd longest =>
          requireSet name
          if isUnset then return found
          let pattern := Pattern.ofMarked (Piece.marked (← word (.text .atStart) true body))
          return changed session name isQuoted purpose.splits (cutEnd pattern longest)

def word (purpose : Purpose) (isStart : Bool) : List Fragment → Act (List Piece)
  | [] => return []
  | first :: rest => do
      let pieces ← fragment purpose isStart rest.isEmpty first
      return pieces ++ (← word purpose false rest)

end

def fields (given : Word) : Act (List Octets) := do
  let pieces ← word substitute ⟨true, false, .atStart⟩ true given
  let session ← get
  let found := fieldsOf ⟨session.separators⟩ pieces
  if session.has 'f' then return found.map (·.map Prod.fst)
  else return found.flatMap (Glob.expand session.disk)

def allFields : List Word → Act (List Octets)
  | [] => return []
  | given :: rest => do
      return (← fields substitute given) ++ (← allFields rest)

def text (given : Word) : Act Octets := do
  return Piece.joined (← word substitute (.text .atStart) true given)

def value (given : Word) : Act Octets := do
  return Piece.joined (← word substitute (.text .inValue) true given)

def document (given : Word) : Act Octets := do
  return Piece.joined (← word substitute (.text .nowhere) true given)

def pattern (given : Word) : Act Pattern := do
  let pieces ← word substitute (.text .atStart) true given
  return Pattern.ofMarked (Piece.marked pieces)

end Expand

end ElmAtlas.Shell
