import ElmAtlas.Project
import ElmAtlas.Settings

/-!
# The registry of attached projects

The registry lists the attached projects in the order of their attachment and
holds the settings.  A manifest is attached at most once: attaching it again
moves it to the end.
-/

namespace ElmAtlas

inductive Change where
  | attached (project : Project)
  | detached (manifestPath : Path)
  deriving DecidableEq, Repr

namespace Change

/-- The manifest that a change is about. -/
def manifestPath : Change → Path
  | attached project => project.manifestPath
  | detached path => path

end Change

structure Registry where
  projects : List Project
  settings : Settings
  deriving DecidableEq, Repr

namespace Registry

def empty : Registry :=
  ⟨[], {}⟩

def remove (registry : Registry) (manifestPath : Path) : Registry :=
  { registry with
    projects := registry.projects.filter fun project =>
      !project.manifestPath.sameAs manifestPath }

def insert (registry : Registry) (project : Project) : Registry :=
  { registry with
    projects := (registry.remove project.manifestPath).projects ++ [project] }

def apply (registry : Registry) : Change → Registry
  | .attached project => registry.insert project
  | .detached path => registry.remove path

def find? (registry : Registry) (manifestPath : Path) : Option Project :=
  registry.projects.find? fun project => project.manifestPath.sameAs manifestPath

def isAttached (registry : Registry) (manifestPath : Path) : Bool :=
  registry.projects.any fun project => project.manifestPath.sameAs manifestPath

/-- The deeper of two projects; of equally deep ones the second. -/
def deeper (best : Option Project) (project : Project) : Option Project :=
  match best with
  | none => some project
  | some found => if found.depth ≤ project.depth then some project else some found

/-- The project that owns a file: of those that contain it the deepest, and of
several the one attached last. -/
def owner? (registry : Registry) (file : Path) : Option Project :=
  (registry.projects.filter (·.containsFile file)).foldl deeper none

end Registry

end ElmAtlas
