import Graft.Mutation.Repetition

/-!
# Strategies at work

Every strategy chooses a node by weight and exchanges the subtree there, or finds
no way to and leaves the tree as it is. The two splices take donors from a random
tree of the corpus: nodes of the same symbol that sit no deeper than the chosen
node. They collect them in a list that is kept from one attempt to the next.
-/

namespace Graft

/-- What an attempt leaves behind. -/
structure Attempt where
  edited : Edited
  /-- The list of donors. It is as it was if no donors were looked for. -/
  donors : List Candidate

namespace Engine

open Graft.Random

variable {σ : Type} [Source σ]

/-- Exchange the subtree of a chosen node for a new growth of its symbol. The
    sites must have weight; to find none to choose is a fault. -/
def replaceNode (engine : Engine) (sites : Sites) (tree : Tree) : Chance σ Edited := do
  match ← Candidate.select sites.nodes with
  | none => throw .noSelectableNode
  | some candidate =>
    match (tree.at? candidate.path).bind Tree.symbol? with
    | none => return .unchanged tree
    | some symbol =>
      match ← engine.grow symbol candidate.depth with
      | none => return .unchanged tree
      | some grown => return .changed (tree.putAt candidate.path grown)

/-- Fill the list of donors from a tree of the corpus, and choose one of them. Where
    there is none to choose the list has still been filled. -/
def chooseDonor (query : Query) (other : Tree) (donors : List Candidate) :
    Chance σ (List Candidate × Option Tree) := do
  let donors := query.refilled other donors
  match ← Candidate.select donors with
  | none => return (donors, none)
  | some donor => return (donors, other.at? donor.path)

/-- Exchange the subtree of a chosen node for one of the corpus. -/
def splice (engine : Engine) (corpus : Corpus) (sites : Sites) (tree : Tree)
    (donors : List Candidate) : Chance σ Attempt := do
  match ← Candidate.select sites.nodes with
  | none => return { edited := .unchanged tree, donors }
  | some candidate =>
    match ← corpus.random with
    | none => return { edited := .unchanged tree, donors }
    | some other =>
      match (tree.at? candidate.path).bind Tree.symbol? with
      | none => return { edited := .unchanged tree, donors }
      | some symbol =>
        let query := { engine.query candidate.depth with filter := some symbol }
        let (donors, donor?) ← chooseDonor query other donors
        match donor? with
        | none => return { edited := .unchanged tree, donors }
        | some donor => return { edited := .changed (tree.putAt candidate.path donor), donors }

/-- Delete or insert elements of a chosen repetition. -/
def repeatMutator (engine : Engine) (sites : Sites) (tree : Tree) : Chance σ Edited := do
  match ← Candidate.select sites.repetitions with
  | none => return .unchanged tree
  | some candidate =>
    match tree.at? candidate.path with
    | none => return .unchanged tree
    | some node =>
      let position ← Chance.position node.children.length
      let mode := RepeatMode.pick (← Chance.fraction) engine.settings.repeatModes
      let edited ← engine.editRepetition node candidate.depth position mode
      return edited.within tree candidate.path

/-- Copy elements of a repetition of the corpus into a chosen repetition. -/
def repeatSplice (engine : Engine) (corpus : Corpus) (sites : Sites) (tree : Tree)
    (donors : List Candidate) : Chance σ Attempt := do
  match ← Candidate.select sites.repetitions with
  | none => return { edited := .unchanged tree, donors }
  | some candidate =>
    match ← corpus.random with
    | none => return { edited := .unchanged tree, donors }
    | some other =>
      match tree.at? candidate.path with
      | none | some (.text _) => return { edited := .unchanged tree, donors }
      | some (.expansion symbol children) =>
        let query :=
          { engine.query candidate.depth with filter := some symbol, repetitionsOnly := true }
        let (donors, donor?) ← chooseDonor query other donors
        match donor? with
        | none => return { edited := .unchanged tree, donors }
        | some donor =>
          let position ← Chance.position children.length
          let donorPosition ← Chance.position donor.children.length
          let delete := (← Chance.fraction) < engine.settings.repeatSpliceDeleteProbability
          let edited ← engine.spliceRepetition (.expansion symbol children) donor
            position donorPosition delete
          return { edited := edited.within tree candidate.path, donors }

/-- Follow a strategy on a tree whose sites have just been collected. A tree
    without nodes to choose has nothing to grow afresh. -/
def apply (engine : Engine) (corpus : Corpus) (strategy : Strategy) (sites : Sites)
    (tree : Tree) (donors : List Candidate) : Chance σ Attempt :=
  match strategy with
  | .replaceNode =>
    if sites.nodes.isEmpty then pure { edited := .unchanged tree, donors }
    else do
      let edited ← engine.replaceNode sites tree
      return { edited, donors }
  | .splice => engine.splice corpus sites tree donors
  | .repeatMutator => do
    let edited ← engine.repeatMutator sites tree
    return { edited, donors }
  | .repeatSplice => engine.repeatSplice corpus sites tree donors

end Engine

end Graft
