import Graft.Mutation.Engine

/-!
# Editing the children of a node

Elements are deleted, grown or copied in runs. A run has one element at least,
where there is one, and goes on while a draw per element says so. New elements go
in after the element at the chosen position, or at the end where there is none.
An edit aimed past the end of the children is a fault.

An edit that finds no way to change a node is refused. It hands back the node as it
is then, with word of the refusal.
-/

namespace Graft

/-- What an edit leaves of a tree. -/
structure Edited where
  tree : Tree
  /-- Whether the edit was made. Otherwise it was refused. -/
  applied : Bool

namespace Edited

/-- The tree of an edit that is refused. -/
def unchanged (tree : Tree) : Edited :=
  { tree, applied := false }

/-- The tree that an edit makes. -/
def changed (tree : Tree) : Edited :=
  { tree, applied := true }

/-- The edit of a node as one of the tree that has the node at a path. -/
def within (edited : Edited) (tree : Tree) (path : Path) : Edited :=
  { edited with tree := tree.putAt path edited.tree }

end Edited

namespace Engine

open Graft.Random

variable {σ : Type} [Source σ]

/-- The length of a run over so many available elements. A draw is made after
    every element, the last one included. -/
def runLength (engine : Engine) : (available : Nat) → Chance σ Nat
  | 0 => pure 0
  | available + 1 => do
    if ← engine.goesOn then return (← runLength engine available) + 1
    else return 1

/-- Delete a run of elements from a position on. -/
def deleteRun (engine : Engine) (position : Nat) (children : List Tree) :
    Chance σ (List Tree) := do
  let count ← engine.runLength (children.length - position)
  if children.length < position + count then
    throw (.positionPastEnd (position + count) children.length)
  return children.take position ++ children.drop (position + count)

/-- Put elements in after the one at a position, or at the end. -/
def insertAfter (position : Nat) (elements children : List Tree) : Chance σ (List Tree) := do
  let place := if position < children.length then position + 1 else position
  if children.length < place then throw (.positionPastEnd place children.length)
  return children.take place ++ elements ++ children.drop place

/-- Grow elements until a draw ends the run. Growths that fail are left out. -/
def stage (engine : Engine) (element : Symbol) (depth : Nat) :
    (patience : Nat) → Chance σ (List Tree)
  | 0 => throw .patienceExhausted
  | patience + 1 => do
    let grown ← engine.grow element depth
    if ← engine.goesOn then return grown.toList ++ (← stage engine element depth patience)
    else return grown.toList

/-- Delete or insert elements of a repetition around a position. The depth is that
    of the node. New elements are grown before any is deleted, so that a
    repetition whose element cannot grow keeps what it has. -/
def editRepetition (engine : Engine) (node : Tree) (depth position : Nat) (mode : RepeatMode) :
    Chance σ Edited :=
  match node with
  | .text _ => pure (.unchanged node)
  | .expansion symbol children =>
    match symbol.element? with
    | none => pure (.unchanged node)
    | some element => do
      let staged ←
        if mode.inserts then do
          engine.stage element (← MonadExcept.ofExcept (Depth.below depth)) engine.patience
        else pure []
      if mode.inserts && staged.isEmpty then return .unchanged node
      let children ← if mode.deletes then engine.deleteRun position children else pure children
      let children ← if mode.inserts then insertAfter position staged children else pure children
      return .changed (.expansion symbol children)

/-- Copy a run of a donor's children, from a donor position on, into the children
    of a node, after deleting a run there if asked to. An empty run is copied where
    the donor position is past the donor's end. -/
def spliceRepetition (engine : Engine) (node donor : Tree) (position donorPosition : Nat)
    (delete : Bool) : Chance σ Edited :=
  match node with
  | .text _ => pure (.unchanged node)
  | .expansion symbol children => do
    let children ← if delete then engine.deleteRun position children else pure children
    let available := donor.children.drop donorPosition
    let count ← engine.runLength available.length
    if available.length < count then throw (.positionPastEnd count available.length)
    let copied := available.take count
    return .changed (.expansion symbol (← insertAfter position copied children))

end Engine

end Graft
