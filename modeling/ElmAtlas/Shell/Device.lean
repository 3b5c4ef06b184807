import ElmAtlas.Path.Normal

/-!
# Devices

A few paths lead to no file of the disk: the one that swallows everything, and
those that stand for descriptors.
-/

namespace ElmAtlas.Shell

inductive Device where
  | null
  | descriptor (number : Nat)
  deriving DecidableEq, Repr

namespace Device

def ofPath? (path : Path) : Option Device :=
  match path.normalize.components with
  | [.root, .name "dev", .name "null"] => some .null
  | [.root, .name "dev", .name "stdin"] => some (.descriptor 0)
  | [.root, .name "dev", .name "stdout"] => some (.descriptor 1)
  | [.root, .name "dev", .name "stderr"] => some (.descriptor 2)
  | [.root, .name "dev", .name "fd", .name number] =>
      match number.toList with
      | [digit] => if digit.isDigit then some (.descriptor (digit.toNat - 48)) else none
      | _ => none
  | _ => none

end Device

end ElmAtlas.Shell
