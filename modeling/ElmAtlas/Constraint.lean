import ElmAtlas.Text.Template
import ElmAtlas.Version

/-!
# Version constraints

A constraint is a range `low <= v < high` in which each bound carries its own
comparison.  A bare version is accepted as well and means exactly that version.
-/

namespace ElmAtlas

/-- Why a text is not a version or not a constraint. -/
inductive VersionFault where
  | malformedVersion (text : String)
  | malformed (text : String)
  | inverted (text : String)
  deriving DecidableEq, Repr

namespace VersionFault

def message : VersionFault → String
  | malformedVersion text => s!"malformed version `{text}`"
  | malformed text => s!"malformed version constraint `{text}`"
  | inverted text =>
      s!"version constraint `{text}` has a lower bound above its upper bound"

end VersionFault

namespace Version

/-- Reads a version and reports the whole text when it is none. -/
def parse (text : String) : Except VersionFault Version :=
  match ofText? text with
  | some version => .ok version
  | none => .error (.malformedVersion text)

end Version

/-- How a bound is compared with a version. -/
inductive Comparison where
  | below
  | atMost
  deriving DecidableEq, Repr

namespace Comparison

def holds : Comparison → Version → Version → Bool
  | below, left, right => left < right
  | atMost, left, right => left ≤ right

def characters : Comparison → List Char
  | below => ['<']
  | atMost => ['<', '=']

def toText (comparison : Comparison) : String :=
  String.ofList comparison.characters

def ofCharacters? : List Char → Option Comparison
  | ['<'] => some below
  | ['<', '='] => some atMost
  | _ => none

def ofText? (text : String) : Option Comparison :=
  ofCharacters? text.toList

end Comparison

/-- The versions `v` with `low lowOp v` and `v highOp high`. -/
structure Constraint where
  low : Version
  lowOp : Comparison
  highOp : Comparison
  high : Version
  deriving DecidableEq, Repr

namespace Constraint

def exact (version : Version) : Constraint :=
  ⟨version, .atMost, .atMost, version⟩

/-- The usual `low <= v < high`. -/
def range (low high : Version) : Constraint :=
  ⟨low, .atMost, .below, high⟩

def satisfies (constraint : Constraint) (version : Version) : Bool :=
  constraint.lowOp.holds constraint.low version &&
    constraint.highOp.holds version constraint.high

def isExact (constraint : Constraint) : Bool :=
  constraint.low == constraint.high && constraint.lowOp == .atMost &&
    constraint.highOp == .atMost

/-- The lowest version of the range, if the range holds one. -/
def leastVersion? (constraint : Constraint) : Option Version := do
  let least ←
    match constraint.lowOp with
    | .atMost => some constraint.low
    | .below => constraint.low.nextPatch?
  if constraint.satisfies least then some least else none

def characters (constraint : Constraint) : List Char :=
  if constraint.isExact then
    constraint.low.characters
  else
    Text.join [' '] [constraint.low.characters, constraint.lowOp.characters, ['v'],
      constraint.highOp.characters, constraint.high.characters]

def toText (constraint : Constraint) : String :=
  String.ofList constraint.characters

instance : ToString Constraint := ⟨toText⟩

/-- The template of a range: a version, `v` and a version with a comparison between
each two of them, parted by blanks. -/
def rangeTemplate : Text.Template :=
  let blanks := Text.Template.pass (.run Text.isBlank 0)
  let gap := Text.Template.pass (.run Text.isBlank 1)
  let word := Text.Template.capture (.run (fun character => !Text.isBlank character) 1)
  let comparison := Text.Template.capture (.choice [['<', '='], ['<']])
  [blanks, word, gap, comparison, gap, Text.Template.pass (.choice [['v']]), gap, comparison,
    gap, word, blanks]

/-- Reads a range or, from a text of another form, a bare version. -/
def parse (text : String) : Except VersionFault Constraint :=
  match rangeTemplate.captures? text.toList with
  | some [low, lowOp, highOp, high] =>
      match Version.parse (String.ofList low), Comparison.ofCharacters? lowOp,
        Comparison.ofCharacters? highOp, Version.parse (String.ofList high) with
      | .ok low, some lowOp, some highOp, .ok high =>
          if high < low then .error (.inverted text) else .ok ⟨low, lowOp, highOp, high⟩
      | _, _, _, _ => .error (.malformed text)
  | _ =>
      match Version.parse text with
      | .ok version => .ok (exact version)
      | .error _ => .error (.malformed text)

end Constraint

/-- Values that are read from a text. -/
class FromText (α : Type) (Fault : outParam Type) where
  fromText : String → Except Fault α

instance : FromText Version VersionFault := ⟨Version.parse⟩

instance : FromText Comparison Unit where
  fromText text :=
    match Comparison.ofText? text with
    | some comparison => .ok comparison
    | none => .error ()

instance : FromText Constraint VersionFault := ⟨Constraint.parse⟩

end ElmAtlas
