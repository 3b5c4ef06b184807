import ElmAtlas.Shell.Pattern
import ElmAtlas.Disk

/-!
# Fields

An expanded word is a list of pieces.  Pieces that were put in without quotes are
split at separators into several fields.  A field that holds an open pattern then
stands for the files that match it.
-/

namespace ElmAtlas.Shell

/-- A part of an expanded word.  Inserted octets may hold the octet zero, which
separates arguments. -/
inductive Piece where
  | text (octets : Octets) (isQuoted : Bool)
  | inserted (octets : Octets)
  | boundary
  deriving DecidableEq

namespace Piece

def marked : List Piece → List Marked
  | [] => []
  | .text octets isQuoted :: pieces => octets.map (·, isQuoted) ++ marked pieces
  | .inserted octets :: pieces => octets.map (·, false) ++ marked pieces
  | .boundary :: pieces => (' ', false) :: marked pieces

def joined (pieces : List Piece) : Octets :=
  (marked pieces).map Prod.fst

end Piece

/-- Which octets separate fields.  Blanks among them never make an empty field. -/
structure Separation where
  separators : Octets

namespace Separation

def isSeparator (separation : Separation) (octet : Char) : Bool :=
  octet == '\x00' || separation.separators.contains octet

def isBlank (octet : Char) : Bool :=
  octet == '\x00' || octet == ' ' || octet == '\t' || octet == '\n'

end Separation

/-- Fields that are complete and one that is being gathered. -/
structure Gathering where
  fields : List (List Marked)
  current : Option (List Marked)

namespace Gathering

def close (gathering : Gathering) : Gathering :=
  ⟨gathering.fields ++ gathering.current.toList, none⟩

def cut (gathering : Gathering) : Gathering :=
  ⟨gathering.fields ++ [gathering.current.getD []], none⟩

def extend (gathering : Gathering) (marked : List Marked) : Gathering :=
  { gathering with current := some (gathering.current.getD [] ++ marked) }

/-- Splits octets.  Behind a separator, `gap` says whether it was blank; then one
more that is not blank belongs to it. -/
def split (separation : Separation) : Gathering → (gap : Option Bool) → Octets → Gathering
  | gathering, _, [] => gathering
  | gathering, gap, octet :: rest =>
      if !separation.isSeparator octet then
        split separation (gathering.extend [(octet, false)]) none rest
      else if Separation.isBlank octet then
        match gap with
        | some wasBlank => split separation gathering (some wasBlank) rest
        | none =>
            if gathering.current.isNone then split separation gathering none rest
            else split separation gathering.close (some true) rest
      else if gap == some true then split separation gathering (some false) rest
      else split separation gathering.cut (some false) rest

def add (separation : Separation) (gathering : Gathering) : Piece → Gathering
  | .boundary => gathering.cut
  | .text octets isQuoted =>
      if octets.isEmpty && !isQuoted then gathering
      else gathering.extend (octets.map (·, isQuoted))
  | .inserted octets => split separation gathering none octets

end Gathering

def fieldsOf (separation : Separation) (pieces : List Piece) : List (List Marked) :=
  (pieces.foldl (Gathering.add separation) ⟨[], none⟩).close.fields

/-- Where a line is cut that fills its last variable: behind the field, or not at
all when more fields follow. -/
structure LineEnd where
  cutAt : Option Nat
  isAfterBlank : Bool

/-- Follows the last field of a line; `index` counts the octets of the rest. -/
def lineEnd (separation : Separation) : LineEnd → (index : Nat) → List Marked → LineEnd
  | state, _, [] => state
  | state, index, (octet, isQuoted) :: rest =>
      let isSeparator := !isQuoted && separation.isSeparator octet
      if isSeparator && Separation.isBlank octet then
        lineEnd separation { state with cutAt := state.cutAt.or (some index) } (index + 1) rest
      else
        let cutAt := if isSeparator && state.isAfterBlank then state.cutAt else none
        lineEnd separation ⟨cutAt, false⟩ (index + 1) rest

/-- Cuts a line into at most `count` fields.  The last one takes the rest without
the separators at its end. -/
def lineFields (separation : Separation) : (count : Nat) → (gap : Bool) → (current : List Marked) →
    List Marked → List Octets
  | _, _, current, [] => if current.isEmpty then [] else [current.map Prod.fst]
  | count, gap, current, (octet, isQuoted) :: rest =>
      let isSeparator := !isQuoted && separation.isSeparator octet
      let isBlank := isSeparator && Separation.isBlank octet
      if gap && isBlank then lineFields separation count gap current rest
      else if gap && isSeparator then lineFields separation count false current rest
      else if !isSeparator then
        lineFields separation count false (current ++ [(octet, isQuoted)]) rest
      else if isBlank && current.isEmpty then lineFields separation count false current rest
      else if count ≤ 1 then
        let finish := lineEnd separation ⟨some 0, isBlank⟩ 1 rest
        let behind :=
          match finish.cutAt with
          | some size => ((octet, isQuoted) :: rest).take size
          | none => (octet, isQuoted) :: rest
        [(current ++ behind).map Prod.fst]
      else current.map Prod.fst :: lineFields separation (count - 1) isBlank [] rest

namespace Glob

def components : List Marked → List (List Marked)
  | [] => [[]]
  | (octet, isQuoted) :: rest =>
      match components rest with
      | [] => [[(octet, isQuoted)]]
      | piece :: pieces =>
          if octet == '/' then [] :: piece :: pieces
          else ((octet, isQuoted) :: piece) :: pieces

def pathOf (octets : Octets) : Path :=
  ⟨Octets.toText octets⟩

/-- The names in a directory that a pattern matches.  A leading dot has to be
written. -/
def namesIn (disk : Disk) (directory : Octets) (component : List Marked) : List Octets :=
  let path := if directory.isEmpty then ⟨"."⟩ else pathOf directory
  if !disk.isDirectory path then []
  else
    let pattern := Pattern.ofMarked component
    let names := ".".toList :: "..".toList ::
      (disk.entries path).map fun entry => Octets.ofText entry.1
    let isDotted := (component.find? fun entry => entry != ('\\', false)).map Prod.fst == some '.'
    names.filter fun name => (isDotted || name.head? != some '.') && pattern.isMatch name

/-- The paths that the components match, each behind what has been found of
it. -/
def paths (disk : Disk) : (found : Octets) → (isOpen : Bool) → List (List Marked) → List Octets
  | found, _, [] => [found]
  | found, isOpen, component :: rest =>
      let separated (octets : Octets) : Octets := if rest.isEmpty then octets else octets ++ ['/']
      if (Pattern.ofMarked component).isOpen then
        (namesIn disk found component).flatMap fun name =>
          paths disk (found ++ separated name) true rest
      else
        let literal := found ++ separated ((Pattern.ofMarked component).filterMap fun item =>
          match item with
          | .octet octet => some octet
          | _ => none)
        if rest.isEmpty && isOpen && !disk.isPresent (pathOf literal) then []
        else paths disk literal isOpen rest

def comesBefore : Octets → Octets → Bool
  | _, [] => false
  | [], _ :: _ => true
  | left :: lefts, right :: rights =>
      if left == right then comesBefore lefts rights else left < right

/-- What a field stands for: the files that it matches, in order, or itself when
there are none. -/
def expand (disk : Disk) (field : List Marked) : List Octets :=
  let literal := field.map Prod.fst
  if (Pattern.ofMarked field).isOpen then
    match (paths disk [] false (components field)).mergeSort fun left right =>
        !comesBefore right left with
    | [] => [literal]
    | found => found
  else [literal]

end Glob

end ElmAtlas.Shell
