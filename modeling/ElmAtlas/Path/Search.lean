import ElmAtlas.Path.Basic

/-!
# Search paths

A search path is a list of directories, divided by colons.  An empty entry is the
working directory, and an entry whose first component is `~` lies below the home
directory.  What is found below a relative entry is told as seen from the root, unless
it begins with `~`.
-/

namespace ElmAtlas.Path

/-- The directories of a search path as they are written. -/
def searchDirectories (searchPath : String) : List Path :=
  (Text.split (· == ':') searchPath.toList).map fun piece => ⟨String.ofList piece⟩

/-- A path continued by components, one after the other. -/
def extend (base : Path) (components : List Component) : Path :=
  components.foldl (fun path component => path.child component.text) base

/-- Whether the first component of a path is `~`. -/
def beginsAtHome (path : Path) : Bool :=
  path.components.head? == some (.name "~")

/-- The directory that an entry names; without a home directory `~` is a name like
any other. -/
def expandHome (home : Option Path) (path : Path) : Path :=
  match home with
  | some directory =>
      if path.beginsAtHome then directory.extend path.components.tail else path
  | none => path

/-- A relative path as seen from the root.  Only what stands for nothing is left
out, so `..` stays, and a path that begins with `~` stays as it is. -/
def rooted (path cwd : Path) : Path :=
  if path.isAbsolute || path.beginsAtHome then path
  else cwd.extend (path.components.filter (· != .current))

/-- The places where a file of a name may be, in the order of the search path. -/
def candidates (home : Option Path) (searchPath name : String) : List Path :=
  (searchDirectories searchPath).map fun entry => (expandHome home entry).child name

end ElmAtlas.Path
