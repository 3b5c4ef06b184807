import ElmAtlas.Text.Octets

/-!
# Words of a script

A word is a list of fragments: text that stands for itself and places where
something is put in.  Quoted fragments are neither split nor used as patterns.
An empty quoted text is kept, because it makes a field even when nothing else
does.
-/

namespace ElmAtlas.Shell

/-- What is done with a parameter before it is put in. -/
inductive Modifier where
  | orElse
  | orAssign
  | orFail
  | instead
  | withoutStart (longest : Bool)
  | withoutEnd (longest : Bool)
  deriving DecidableEq, Repr

/-- Scripts that are put in keep their text and the line they begin on. -/
inductive Fragment where
  | text (octets : Octets) (isQuoted : Bool)
  | parameter (name : Octets) (isQuoted : Bool)
  | size (name : Octets) (isQuoted : Bool)
  | modified (name : Octets) (modifier : Modifier) (emptyIsUnset : Bool)
      (word : List Fragment) (isQuoted : Bool)
  | malformed
  | substitution (script : Octets) (line : Nat) (isQuoted : Bool)
  | arithmetic (word : List Fragment) (isQuoted : Bool)

abbrev Word := List Fragment

def isNameStart (octet : Char) : Bool :=
  octet.isAlpha || octet == '_'

def isNamePart (octet : Char) : Bool :=
  octet.isAlphanum || octet == '_'

def isName : Octets → Bool
  | [] => false
  | first :: rest => isNameStart first && rest.all isNamePart

def endsWord (octet : Char) : Bool :=
  octet == ' ' || octet == '\t' || octet == '\n' || octet == ';' || octet == '&' ||
    octet == '|' || octet == '<' || octet == '>' || octet == '(' || octet == ')'

/-- The parameters with names of one octet that is no digit. -/
def isSpecial (octet : Char) : Bool :=
  octet == '@' || octet == '*' || octet == '#' || octet == '?' || octet == '$' ||
    octet == '!' || octet == '-'

namespace Word

def push (octets : Octets) (isQuoted : Bool) : Word → Word
  | .text next isNextQuoted :: rest =>
      if isQuoted == isNextQuoted then .text (octets ++ next) isQuoted :: rest
      else .text octets isQuoted :: .text next isNextQuoted :: rest
  | rest => .text octets isQuoted :: rest

def plain? : Word → Option Octets
  | [] => some []
  | .text octets false :: fragments => (plain? fragments).map (octets ++ ·)
  | _ => none

/-- The octets of a word that holds text only, without the quotes. -/
def literal : Word → Octets
  | [] => []
  | .text octets _ :: fragments => octets ++ literal fragments
  | _ :: fragments => literal fragments

def hasQuotes (word : Word) : Bool :=
  word.any fun fragment =>
    match fragment with
    | .text _ isQuoted => isQuoted
    | _ => false

/-- Cuts an assignment at its equals sign; the name must stand unquoted. -/
def assignment? : Word → Option (Octets × Word)
  | .text octets false :: rest =>
      let name := octets.takeWhile (· != '=')
      match octets.dropWhile (· != '=') with
      | _ :: value =>
          if !isName name then none
          else if value.isEmpty then some (name, rest)
          else some (name, .text value false :: rest)
      | [] => none
  | _ => none

end Word

end ElmAtlas.Shell
