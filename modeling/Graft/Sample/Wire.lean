import Graft.Bytes
import Graft.Tree.Basic

/-!
# The written form of a tree

A sample is a tree written as octets. Symbols are written by name, so that a
sample does not depend on how a grammar numbers them. A node starts with a
32-bit variant: zero for an expansion, followed by its name and its children,
and one for a leaf, followed by its octets. Names, leaves and child lists are
preceded by their lengths in 64 bits, and every number is little-endian.
-/

namespace Graft

/-- A tree whose symbols are names. -/
inductive Wire where
  | text (octets : Bytes)
  | expansion (name : String) (children : List Wire)
deriving Repr, Inhabited

namespace Wire

mutual

/-- The octets of a node and everything below it. -/
def write : Wire → Bytes
  | .text octets =>
    Bytes.littleEndian 4 1 ++ Bytes.littleEndian 8 octets.length ++ octets
  | .expansion name children =>
    let octets := Bytes.ofString name
    Bytes.littleEndian 4 0 ++ Bytes.littleEndian 8 octets.length ++ octets ++
      Bytes.littleEndian 8 children.length ++ writeAll children

/-- The octets of nodes in a row. -/
def writeAll : List Wire → Bytes
  | [] => []
  | wire :: rest => write wire ++ writeAll rest

end

end Wire

namespace Tree

mutual

/-- The tree with each symbol reduced to its name. -/
def toWire : Tree → Wire
  | .text octets => .text octets
  | .expansion symbol children => .expansion symbol.name (toWires children)

/-- A row of trees with each symbol reduced to its name. -/
def toWires : List Tree → List Wire
  | [] => []
  | tree :: rest => toWire tree :: toWires rest

end

/-- The sample of a tree. -/
def toSample (tree : Tree) : Bytes :=
  tree.toWire.write

end Tree

end Graft
