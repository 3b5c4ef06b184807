import ElmAtlas.Text.Blank

/-!
# Paths

A path keeps the text it was written with.  What it means is its list of
components: repeated and trailing separators and every `.` but a leading one
stand for nothing.  Two paths are the same place when their components agree.
-/

namespace ElmAtlas

inductive Component where
  | root
  | current
  | parent
  | name (text : String)
  deriving DecidableEq, Repr

namespace Component

def text : Component → String
  | root => "/"
  | current => "."
  | parent => ".."
  | name text => text

/-- Position among the kinds of components when components are sorted. -/
def rank : Component → Nat
  | root => 0
  | current => 1
  | parent => 2
  | name _ => 3

/-- Components are ordered by kind, names among themselves by their text. -/
def comesBefore : Component → Component → Bool
  | name left, name right => left < right
  | left, right => left.rank < right.rank

/-- The component that a piece between separators stands for, if any. -/
def ofPiece? (piece : List Char) : Option Component :=
  if piece.isEmpty || piece == ['.'] then none
  else if piece == ['.', '.'] then some parent
  else some (name (String.ofList piece))

end Component

/-- A path of Unicode text.  Paths whose bytes are not UTF-8 are left out. -/
structure Path where
  text : String
  deriving DecidableEq, Repr, Inhabited

namespace Path

instance : ToString Path := ⟨text⟩

def isAbsolute (path : Path) : Bool :=
  path.text.toList.head? == some '/'

/-- The text between separators, empty pieces included. -/
def pieces (path : Path) : List (List Char) :=
  Text.split (· == '/') path.text.toList

def components (path : Path) : List Component :=
  if path.isAbsolute then
    .root :: path.pieces.filterMap Component.ofPiece?
  else
    match path.pieces with
    | ['.'] :: rest => .current :: rest.filterMap Component.ofPiece?
    | pieces => pieces.filterMap Component.ofPiece?

/-- The path with the given components; a root may only stand first. -/
def ofComponents : List Component → Path
  | .root :: rest => ⟨"/" ++ String.intercalate "/" (rest.map Component.text)⟩
  | components => ⟨String.intercalate "/" (components.map Component.text)⟩

/-- Whether two paths have the same components. -/
def sameAs (left right : Path) : Bool :=
  left.components == right.components

/-- Whether the components of `ancestor` begin those of `path`. -/
def isBelow (path ancestor : Path) : Bool :=
  ancestor.components.isPrefixOf path.components

def componentsBefore : List Component → List Component → Bool
  | _, [] => false
  | [], _ :: _ => true
  | left :: lefts, right :: rights =>
      if left == right then componentsBefore lefts rights else left.comesBefore right

def comesBefore (left right : Path) : Bool :=
  componentsBefore left.components right.components

/-- The second path seen from the first: an absolute one replaces it, a
relative one is written behind it. -/
def join (base path : Path) : Path :=
  if path.isAbsolute then path
  else if base.text.isEmpty || base.text.toList.getLast? == some '/' then
    ⟨base.text ++ path.text⟩
  else
    ⟨base.text ++ "/" ++ path.text⟩

def child (base : Path) (name : String) : Path :=
  base.join ⟨name⟩

/-- Skips the pieces that stand for no component; `pieces` runs from the last
piece to the first, and only a relative path may begin with `.`. -/
def dropFillers (absolute : Bool) : (pieces : List (List Char)) → List (List Char)
  | [] => []
  | piece :: earlier =>
      if piece.isEmpty || (piece == ['.'] && (absolute || !earlier.isEmpty)) then
        dropFillers absolute earlier
      else
        piece :: earlier

/-- The text up to the component before the last one. -/
def parent? (path : Path) : Option Path :=
  match dropFillers path.isAbsolute path.pieces.reverse with
  | [] => none
  | _ :: earlier =>
      match dropFillers path.isAbsolute earlier with
      | [] => some (if path.isAbsolute then ⟨"/"⟩ else ⟨""⟩)
      | kept => some ⟨String.ofList (Text.join ['/'] kept.reverse)⟩

/-- The directory of a file, `.` where the path has none. -/
def directory (path : Path) : Path :=
  path.parent?.getD ⟨"."⟩

/-- The last component when it is a name. -/
def fileName? (path : Path) : Option String :=
  match path.components.getLast? with
  | some (.name text) => some text
  | _ => none

def depth (path : Path) : Nat :=
  path.components.length

/-- The nonempty pieces of a text in which `/` and `\` both separate. -/
def portablePieces (text : String) : List String :=
  (Text.splitNonempty (fun character => character == '/' || character == '\\')
    text.toList).map String.ofList

/-- The text of a path with `/` for every `\`. -/
def slashText (path : Path) : String :=
  String.ofList (path.text.toList.map fun character =>
    if character == '\\' then '/' else character)

end Path

end ElmAtlas
