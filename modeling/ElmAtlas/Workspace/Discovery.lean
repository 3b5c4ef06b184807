import ElmAtlas.Disk
import ElmAtlas.Project

/-!
# Finding manifests

A discovery walks through the directories below a root, in the order in which they
list their entries, except those that hold build products, installed modules or
hidden files.  Every directory has a slot for its manifest; `elm.json` takes the
place of `elm-package.json` there, whichever of the two the walk meets first.
-/

namespace ElmAtlas

namespace Discovery

/-- The directories that are not visited. -/
def isSkipped (name : String) : Bool :=
  name.toList.head? == some '.' || name == "elm-stuff" || name == "node_modules"

def isFile : Node → Bool
  | .file _ _ => true
  | .directory _ => false

mutual

/-- The files that a walk from a node meets, in this order. -/
def filesAt (path : Path) : Node → List Path
  | .file _ _ => [path]
  | .directory entries => filesBelow path entries

def filesBelow (directory : Path) : List (String × Node) → List Path
  | [] => []
  | (name, node) :: rest =>
      (if !isFile node && isSkipped name then [] else filesAt (directory.child name) node) ++
        filesBelow directory rest

end

/-- The directories with a manifest and the manifest in the slot of each. -/
abbrev Slots := List (Path × Path)

/-- Puts a file into the slot of its directory if it is a manifest. -/
def fill (slots : Slots) (file : Path) : Slots :=
  match Schema.ofPath? file, file.parent? with
  | some schema, some directory =>
      if slots.any (·.1.sameAs directory) then
        if schema == .current then
          slots.map fun slot => if slot.1.sameAs directory then (slot.1, file) else slot
        else slots
      else slots ++ [(directory, file)]
  | _, _ => slots

/-- What is in the slots after a walk from a node. -/
def manifestsAt (path : Path) (node : Node) : List Path :=
  ((filesAt path node).foldl fill []).map Prod.snd

/-- All manifests below a root, in the order of their paths.  A root that is
itself a manifest is the only one. -/
def candidates (disk : Disk) (root : Path) : List Path :=
  match disk.node root with
  | .ok node => (manifestsAt root node).mergeSort fun left right => !right.comesBefore left
  | .error _ => []

end Discovery

end ElmAtlas
