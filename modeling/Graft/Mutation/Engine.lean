import Graft.Walk
import Graft.Grammar.Growth
import Graft.Settings.Basic

/-!
# What a mutator works with

A grammar, settings and the root symbol they name. None of it changes while the
mutator works.
-/

namespace Graft

/-- The fixed part of a mutator. -/
structure Engine where
  grammar : Grammar
  settings : Settings
  /-- The symbol that new samples derive from. -/
  root : Symbol
  /-- How long a loop that only chance ends is allowed to run. -/
  patience : Nat

/-- The candidates of one tree. -/
structure Sites where
  /-- Every node an edit may choose. -/
  nodes : List Candidate
  /-- The nodes of repetitions among them. -/
  repetitions : List Candidate

namespace Engine

open Graft.Random

variable {σ : Type} [Source σ]

/-- The engine for settings, if the grammar has the root symbol they name. -/
def ofSettings? (grammar : Grammar) (settings : Settings) (patience : Nat) : Option Engine :=
  (grammar.symbol? settings.rootSymbol).map fun root => { grammar, settings, root, patience }

/-- A query for nodes down to a depth, weighed as the settings say. -/
def query (engine : Engine) (maxDepth : Nat) : Query :=
  { maxDepth, decay := engine.settings.depthDecay }

/-- The candidates of a tree as the settings limit them, which is what the lists of a mutator
    hold once they are filled from the tree. -/
def sites (engine : Engine) (tree : Tree) : Sites :=
  let query := engine.query engine.settings.maxDepth
  { nodes := query.collect tree
    repetitions := { query with repetitionsOnly := true }.collect tree }

/-- The lists of candidates filled anew for a tree, whatever they held. -/
def collectSites (engine : Engine) (tree : Tree) (held : Sites) : Sites :=
  let query := engine.query engine.settings.maxDepth
  { nodes := query.refilled tree held.nodes
    repetitions := { query with repetitionsOnly := true }.refilled tree held.repetitions }

/-- Grow a symbol as a node of the given depth. -/
def grow (engine : Engine) (symbol : Symbol) (depth : Nat) : Chance σ (Option Tree) :=
  engine.grammar.grow engine.patience symbol depth

/-- Draw whether a run of elements goes on. -/
def goesOn (engine : Engine) : Chance σ Bool := do
  return (← Chance.fraction) ≤ engine.settings.repeatProbability

end Engine

end Graft
