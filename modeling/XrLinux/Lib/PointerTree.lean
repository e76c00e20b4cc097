import Mathlib.Algebra.GroupWithZero.Nat
import Mathlib.Tactic.Common

/-!
# Trees of pointers

A block of pointers has `width` of them, and `pointer b i` is the one at `i` in block `b`; 0 points
to nothing. `path level index root` are the pointers on the way from `root` down `level` blocks to
the leaf `index`, up to the first that is 0. A file is a sequence of such trees, one level deeper
each, which `locate` searches for the tree that has a given leaf.
-/

namespace PointerTree

variable (pointer : Nat → Nat → Nat) (width : Nat)

def path : Nat → Nat → Nat → List Nat
  | 0, _, root => [root]
  | level + 1, index, root =>
    if root = 0 then [0]
    else root :: path level index (pointer root (index / width ^ level % width))

/-- Where the path ends. -/
def leaf (level index root : Nat) : Nat := (path pointer width level index root).getLastD 0

variable {pointer width}

@[simp] theorem path_zero (index root : Nat) : path pointer width 0 index root = [root] := rfl

end PointerTree
