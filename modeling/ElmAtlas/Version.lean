import ElmAtlas.SemanticVersion

/-!
# Versions

A version is a plain triple of 64-bit numbers written `MAJOR.MINOR.PATCH`.
Texts with a pre-release or build part are not versions, though the grammar of
semantic versions would allow them.
-/

namespace ElmAtlas

structure Version where
  major : UInt64
  minor : UInt64
  patch : UInt64
  deriving DecidableEq, Repr, Inhabited

namespace Version

/-- Versions are ordered by major number, then minor number, then patch. -/
def precedes (left right : Version) : Bool :=
  left.major < right.major ||
    (left.major == right.major &&
      (left.minor < right.minor ||
        (left.minor == right.minor && left.patch < right.patch)))

instance : LT Version := ⟨fun left right => left.precedes right = true⟩

instance : LE Version := ⟨fun left right => ¬ right < left⟩

instance (left right : Version) : Decidable (left < right) :=
  inferInstanceAs (Decidable (left.precedes right = true))

instance (left right : Version) : Decidable (left ≤ right) :=
  inferInstanceAs (Decidable (¬ right < left))

/-- The characters of `MAJOR.MINOR.PATCH`. -/
def characters (version : Version) : List Char :=
  Text.join ['.'] [Text.natural version.major.toNat, Text.natural version.minor.toNat,
    Text.natural version.patch.toNat]

def toText (version : Version) : String :=
  String.ofList version.characters

instance : ToString Version := ⟨toText⟩

/-- The three numbers of a semantic version. -/
def ofSemantic (version : SemanticVersion) : Version :=
  ⟨version.major, version.minor, version.patch⟩

def toSemantic (version : Version) : SemanticVersion :=
  ⟨version.major, version.minor, version.patch, [], []⟩

/-- Reads a version from characters that hold nothing else. -/
def ofCharacters? (characters : List Char) : Option Version := do
  let version ← SemanticVersion.ofCharacters? characters
  if version.preRelease.isEmpty && version.build.isEmpty then some (ofSemantic version)
  else none

/-- Reads a version; blanks around it are allowed. -/
def ofText? (text : String) : Option Version :=
  ofCharacters? (Text.trim text.toList)

/-- The next patch release, unless the patch number is exhausted. -/
def nextPatch? (version : Version) : Option Version :=
  if version.patch.toNat + 1 < UInt64.size then
    some { version with patch := version.patch + 1 }
  else
    none

def latest (left right : Version) : Version :=
  if right < left then left else right

def latest? : List Version → Option Version
  | [] => none
  | version :: versions => some (versions.foldl latest version)

/-- Puts a version into an ascending list, before the first later one. -/
def insertSorted (version : Version) : List Version → List Version
  | [] => [version]
  | head :: tail =>
      if version < head then version :: head :: tail else head :: insertSorted version tail

/-- Ascending order; equal versions stay side by side. -/
def sort (versions : List Version) : List Version :=
  versions.foldr insertSorted []

/-- Puts a version into a strictly ascending list, unless it is there. -/
def insertOnce (version : Version) : List Version → List Version
  | [] => [version]
  | head :: tail =>
      if version < head then version :: head :: tail
      else if head < version then head :: insertOnce version tail
      else head :: tail

/-- Strictly ascending order; of equal versions one is kept. -/
def sortOnce (versions : List Version) : List Version :=
  versions.foldr insertOnce []

end Version

end ElmAtlas
