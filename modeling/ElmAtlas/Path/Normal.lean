import ElmAtlas.Path.Basic

/-!
# Lexical normal form of paths

Normalising removes `.` and resolves `..` against the name before it, without
looking at any directory.  A `..` with nothing to resolve is kept, except at the
root, which is its own parent.  The path with no components left is `.`.
-/

namespace ElmAtlas.Path

/-- Takes one more component; `kept` holds the components so far, last first. -/
def normalizeStep (kept : List Component) (component : Component) : List Component :=
  match component, kept with
  | .current, _ => kept
  | .parent, .name _ :: earlier => earlier
  | .parent, .root :: _ => kept
  | _, _ => component :: kept

def normalizeComponents (components : List Component) : List Component :=
  (components.foldl normalizeStep []).reverse

def normalize (path : Path) : Path :=
  match normalizeComponents path.components with
  | [] => ⟨"."⟩
  | components => ofComponents components

/-- The normal form of a path seen from a directory. -/
def absolutize (path base : Path) : Path :=
  (base.join path).normalize

end ElmAtlas.Path
