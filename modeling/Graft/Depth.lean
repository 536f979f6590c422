import Graft.Fault

/-!
# Depths

The depth of a node is counted from a root on, which need not have depth zero.
The count has 64 bits. To need a depth beyond it is a fault; a walk that starts at
zero never does, for no tree has that many levels.
-/

namespace Graft.Depth

/-- The greatest depth. -/
def greatest : Nat := 18446744073709551615

/-- The depth one level below. -/
def below (depth : Nat) : Except Fault Nat :=
  if depth < greatest then .ok (depth + 1) else .error .depthUncountable

end Graft.Depth
