import Graft.Tree.Basic

/-!
# Paths into a tree

A path names a node by the child positions on the way to it from the root. It
leads somewhere or nowhere, and the node it leads to can be exchanged with
everything else kept in place.
-/

namespace Graft

/-- Child positions from the root down. -/
abbrev Path := List Nat

namespace Tree

/-- The subtree that a path leads to. -/
def at? (tree : Tree) : Path → Option Tree
  | [] => some tree
  | position :: path =>
    match tree with
    | .text _ => none
    | .expansion _ children =>
      match children[position]? with
      | none => none
      | some child => child.at? path

/-- The tree with the subtree at a path exchanged, if the path leads anywhere. -/
def replaceAt? (tree : Tree) (path : Path) (replacement : Tree) : Option Tree :=
  match path with
  | [] => some replacement
  | position :: path =>
    match tree with
    | .text _ => none
    | .expansion symbol children =>
      match children[position]? with
      | none => none
      | some child =>
        (child.replaceAt? path replacement).map fun child =>
          .expansion symbol (children.set position child)

/-- The tree with the subtree at a path exchanged. Where the path leads nowhere the tree is
    what it was. -/
def putAt (tree : Tree) (path : Path) (replacement : Tree) : Tree :=
  (tree.replaceAt? path replacement).getD tree

/-- The tree with the children of the inner node at a path changed. Nothing
    results where the path leads nowhere or to a leaf, or the change refuses. -/
def editChildrenAt? (tree : Tree) (path : Path) (edit : List Tree → Option (List Tree)) :
    Option Tree :=
  match tree.at? path with
  | some (.expansion symbol children) =>
    match edit children with
    | some children => tree.replaceAt? path (.expansion symbol children)
    | none => none
  | _ => none

/-- The tree with one more child at the inner node that a path leads to. -/
def pushAt? (tree : Tree) (path : Path) (child : Tree) : Option Tree :=
  tree.editChildrenAt? path fun children => some (children ++ [child])

/-- The tree without one child of the inner node that a path leads to. -/
def removeAt? (tree : Tree) (path : Path) (position : Nat) : Option Tree :=
  tree.editChildrenAt? path fun children =>
    if position < children.length then some (children.eraseIdx position) else none

end Tree

end Graft
