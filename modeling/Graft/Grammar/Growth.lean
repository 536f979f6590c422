import Graft.Depth
import Graft.Grammar.Basic
import Graft.Random.Chance
import Graft.Tree.Basic

/-!
# Growing random trees

A symbol grows into a random tree within the grammar's depth budget. The budget
falls with every level, and a symbol met without budget does not grow; the whole
attempt then fails, with the words it has drawn gone from the source. A grammar
that allows every depth has no depth to fail at, and to go beyond is a fault. A row
is chosen with equal chances. A repetition grows one element at least and goes on
while the draws stay at or below the grammar's probability.

How long a repetition goes on is up to the source alone, so the growth of each
takes a limit, the patience, after which the attempt is abandoned.
-/

namespace Graft.Grammar

open Graft.Random

variable {σ : Type} [Source σ]

/-- Grow the parts of a row from left to right, each symbol with the given
    growth. One part that fails fails the row. -/
def growRow (grammar : Grammar) (grow : Symbol → Chance σ (Option Tree)) :
    List Part → Chance σ (Option (List Tree))
  | [] => pure (some [])
  | .literal octets :: parts => do
    return (← growRow grammar grow parts).map (.text octets :: ·)
  | .symbol id :: parts =>
    match grammar.symbols[id]? with
    | none => pure none
    | some symbol => do
      match ← grow symbol with
      | none => pure none
      | some tree => return (← growRow grammar grow parts).map (tree :: ·)

/-- Grow elements until a draw exceeds the probability. One element that fails
    fails the run. -/
def growRun (probability : Float) (grow : Chance σ (Option Tree)) :
    (patience : Nat) → Chance σ (Option (List Tree))
  | 0 => throw .patienceExhausted
  | patience + 1 => do
    match ← grow with
    | none => pure none
    | some tree =>
      if probability < (← Chance.fraction) then return some [tree]
      else return (← growRun probability grow patience).map (tree :: ·)

/-- Grow a symbol of the table with a budget of levels, its own included. -/
def growNode (grammar : Grammar) (patience : Nat) :
    (budget : Nat) → Symbol → Chance σ (Option Tree)
  | 0, _ =>
    if grammar.maxDepth < Depth.greatest then pure none else throw .depthUncountable
  | budget + 1, symbol =>
    match grammar.productions[symbol.id]? with
    | none => pure none
    | some (.alternatives []) => pure none
    | some (.alternatives rows) => do
      let place ← Chance.below rows.length
      match rows[place]? with
      | none => throw (.positionPastEnd place rows.length)
      | some row =>
        return (← growRow grammar (growNode grammar patience budget) row).map (.expansion symbol)
    | some (.repetition _) =>
      match symbol.element? with
      | none => pure none
      | some element => do
        let run ← growRun grammar.repeatProbability
          (growNode grammar patience budget element) patience
        return run.map (.expansion symbol)

/-- Grow a symbol as a node of the given depth. The symbol is the one of its
    number, and grows only if it also has its name. -/
def grow (grammar : Grammar) (patience : Nat) (symbol : Symbol) (depth : Nat) :
    Chance σ (Option Tree) :=
  match grammar.symbols[symbol.id]? with
  | none => pure none
  | some own =>
    if own.name == symbol.name then
      grammar.growNode patience (grammar.maxDepth + 1 - depth) own
    else pure none

end Graft.Grammar
