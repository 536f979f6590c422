import Graft.Weighted

/-!
# Strategies and their weights

A mutation attempt follows one of four strategies, and an edit of a repetition
works in one of three modes. Which one is drawn depends on a table of weights:
the draw falls into consecutive bands in the order of declaration, and a strategy
or mode without positive weight has no band.
-/

namespace Graft

/-- The structural edits of a mutation attempt. -/
inductive Strategy where
  /-- Grow the subtree of a node afresh. -/
  | replaceNode
  /-- Put a subtree of the same symbol from the corpus in place of a node. -/
  | splice
  /-- Delete or insert elements of a repetition. -/
  | repeatMutator
  /-- Copy elements of a repetition in the corpus into a repetition. -/
  | repeatSplice
deriving DecidableEq, Repr

namespace Strategy

/-- The strategies in the order of their bands. -/
def all : List Strategy := [.replaceNode, .splice, .repeatMutator, .repeatSplice]

/-- The name of a strategy in messages and reports. -/
def name : Strategy → String
  | .replaceNode => "ReplaceNode"
  | .splice => "Splice"
  | .repeatMutator => "RepeatMutator"
  | .repeatSplice => "RepeatSplice"

end Strategy

/-- One entry for every strategy. -/
structure PerStrategy (α : Type) where
  replaceNode : α
  splice : α
  repeatMutator : α
  repeatSplice : α
deriving DecidableEq, Repr

namespace PerStrategy

variable {α : Type}

/-- The entry of a strategy. -/
def get (table : PerStrategy α) : Strategy → α
  | .replaceNode => table.replaceNode
  | .splice => table.splice
  | .repeatMutator => table.repeatMutator
  | .repeatSplice => table.repeatSplice

/-- The table with the entry of one strategy changed. -/
def modify (table : PerStrategy α) (strategy : Strategy) (change : α → α) : PerStrategy α :=
  match strategy with
  | .replaceNode => { table with replaceNode := change table.replaceNode }
  | .splice => { table with splice := change table.splice }
  | .repeatMutator => { table with repeatMutator := change table.repeatMutator }
  | .repeatSplice => { table with repeatSplice := change table.repeatSplice }

/-- The entries side by side, in the order of the strategies. -/
def toList (table : PerStrategy α) : List α :=
  Strategy.all.map table.get

/-- The entries combined pairwise. -/
def zipWith {β γ : Type} (combine : α → β → γ) (left : PerStrategy α) (right : PerStrategy β) :
    PerStrategy γ where
  replaceNode := combine left.replaceNode right.replaceNode
  splice := combine left.splice right.splice
  repeatMutator := combine left.repeatMutator right.repeatMutator
  repeatSplice := combine left.repeatSplice right.repeatSplice

/-- The sum of all entries, from left to right. -/
def total [Add α] (table : PerStrategy α) : α :=
  table.replaceNode + table.splice + table.repeatMutator + table.repeatSplice

/-- The strategies with their weights, in the order of the bands. -/
def bands (table : PerStrategy α) : List (Strategy × α) :=
  Strategy.all.map fun strategy => (strategy, table.get strategy)

end PerStrategy

/-- The strategy whose band holds a fraction of the total weight. -/
def Strategy.pick {ω : Type} [Add ω] [Mul ω] [LT ω] [LE ω] [DecidableLT ω] [DecidableLE ω]
    [OfNat ω 0] (fraction : ω) (weights : PerStrategy ω) : Strategy :=
  Weighted.band (fraction * weights.total) .repeatSplice weights.bands

/-- What an edit of a repetition does around a position. -/
inductive RepeatMode where
  | delete
  | deleteThenInsert
  | insert
deriving DecidableEq, Repr

namespace RepeatMode

/-- The name of a mode. -/
def name : RepeatMode → String
  | .delete => "Delete"
  | .deleteThenInsert => "DeleteThenInsert"
  | .insert => "Insert"

/-- Whether elements are removed. -/
def deletes : RepeatMode → Bool
  | .delete | .deleteThenInsert => true
  | .insert => false

/-- Whether elements are added. -/
def inserts : RepeatMode → Bool
  | .deleteThenInsert | .insert => true
  | .delete => false

end RepeatMode

/-- One entry for every mode. -/
structure PerMode (α : Type) where
  delete : α
  deleteThenInsert : α
  insert : α
deriving DecidableEq, Repr

namespace PerMode

variable {α : Type}

/-- The entries side by side, in the order of the modes. -/
def toList (table : PerMode α) : List α :=
  [table.delete, table.deleteThenInsert, table.insert]

/-- The sum of all entries, from left to right. -/
def total [Add α] (table : PerMode α) : α :=
  table.delete + table.deleteThenInsert + table.insert

/-- The modes with their weights, in the order of the bands. -/
def bands (table : PerMode α) : List (RepeatMode × α) :=
  [(.delete, table.delete), (.deleteThenInsert, table.deleteThenInsert),
    (.insert, table.insert)]

end PerMode

/-- The mode whose band holds a fraction of the total weight. -/
def RepeatMode.pick {ω : Type} [Add ω] [Mul ω] [LT ω] [LE ω] [DecidableLT ω] [DecidableLE ω]
    [OfNat ω 0] (fraction : ω) (weights : PerMode ω) : RepeatMode :=
  Weighted.band (fraction * weights.total) .insert weights.bands

end Graft
