import ElmAtlas.Path.Basic

/-!
# The way from one path to another
-/

namespace ElmAtlas.Path

/-- The components that lead from `base` to `target`.  While nothing has been
written down (`started` is false) common components are skipped.  There is no
answer when `base` goes up where the two already differ. -/
def stepsFrom (started : Bool) :
    (target base : List Component) → Option (List Component)
  | [], base => some (base.map fun _ => .parent)
  | target :: targets, [] => some (target :: targets)
  | target :: targets, base :: bases =>
      if !started && target == base then
        stepsFrom false targets bases
      else if base == .current then
        (stepsFrom true targets bases).map (target :: ·)
      else if base == .parent then
        none
      else
        some (.parent :: bases.map (fun _ => .parent) ++ target :: targets)

/-- The way from `base` to `path`, if there is one. -/
def relativeTo? (path base : Path) : Option Path :=
  if path.isAbsolute == base.isAbsolute then
    (stepsFrom false path.components base.components).map ofComponents
  else if path.isAbsolute then
    some path
  else
    none

/-- The way from `base` to `path`, or the path itself. -/
def relativeTo (path base : Path) : Path :=
  (path.relativeTo? base).getD path

end ElmAtlas.Path
