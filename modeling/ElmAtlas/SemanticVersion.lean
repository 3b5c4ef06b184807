import ElmAtlas.Text.Blank
import ElmAtlas.Text.Decimal

/-!
# Semantic versions

The grammar of SemVer 2.0: three canonical numerals of 64 bits, then perhaps a
pre-release behind a hyphen and a build behind a plus sign, both of them
identifiers between dots.
-/

namespace ElmAtlas

/-- A version of that grammar; a part that is not there is empty. -/
structure SemanticVersion where
  major : UInt64
  minor : UInt64
  patch : UInt64
  preRelease : List Char
  build : List Char
  deriving DecidableEq, Repr

namespace SemanticVersion

/-- Reads a canonical numeral below `2 ^ 64`. -/
def readNumber? (digits : List Char) : Option UInt64 :=
  match Text.readNatural? digits with
  | some number => if number < UInt64.size then some (UInt64.ofNat number) else none
  | none => none

def isIdentifier (characters : List Char) : Bool :=
  !characters.isEmpty && characters.all fun character => character.isAlphanum || character == '-'

/-- In a pre-release an identifier of digits is a canonical numeral. -/
def isPreReleaseIdentifier (characters : List Char) : Bool :=
  isIdentifier characters &&
    (!characters.all Char.isDigit || (Text.readNatural? characters).isSome)

/-- Cuts off the identifiers behind the first occurrence of a mark, if there is one. -/
def cutIdentifiers? (mark : Char) (accepts : List Char → Bool) (characters : List Char) :
    Option (List Char × List Char) :=
  match Text.splitOnce mark characters with
  | some (before, after) =>
      if (Text.split (· == '.') after).all accepts then some (before, after) else none
  | none => some (characters, [])

def readNumbers? (characters : List Char) : Option (UInt64 × UInt64 × UInt64) :=
  match Text.split (· == '.') characters with
  | [major, minor, patch] => do
      return (← readNumber? major, ← readNumber? minor, ← readNumber? patch)
  | _ => none

def ofCharacters? (characters : List Char) : Option SemanticVersion := do
  let (front, build) ← cutIdentifiers? '+' isIdentifier characters
  let (numbers, preRelease) ← cutIdentifiers? '-' isPreReleaseIdentifier front
  let (major, minor, patch) ← readNumbers? numbers
  return ⟨major, minor, patch, preRelease, build⟩

end SemanticVersion

end ElmAtlas
