import Graft.Depth
import Graft.Random.Chance
import Graft.Tree.Path
import Graft.Weighted

/-!
# Candidates for mutation

A candidate is an inner node of one tree at one moment, named by its path. Its
weight falls by a constant factor with every level, so that nodes near the root
are met more often. Candidates are listed in preorder, and nothing below the
depth limit is visited. A change to the tree makes its candidates meaningless;
they are collected afresh before every edit.
-/

namespace Graft

/-- An inner node that an edit may choose. -/
structure Candidate where
  path : Path
  depth : Nat
  weight : Float

namespace Candidate

/-- The candidate as seen from one level further up, where the tree it was found
    in is the child at `position`. -/
def below (position : Nat) (candidate : Candidate) : Candidate :=
  { candidate with path := position :: candidate.path }

/-- Choose a candidate with probability proportional to its weight. -/
def select {σ : Type} [Random.Source σ] (candidates : List Candidate) :
    Chance σ (Option Candidate) :=
  Weighted.select Chance.fraction Candidate.weight candidates

end Candidate

/-- Which nodes a collection takes and how it weighs them. -/
structure Query where
  /-- Take only nodes of this symbol. -/
  filter : Option Symbol := none
  /-- Take only nodes of repetitions. -/
  repetitionsOnly : Bool := false
  /-- The depth ascribed to the root. -/
  startDepth : Nat := 0
  /-- The depth below which nothing is visited. -/
  maxDepth : Nat
  /-- The weight of the root. -/
  weight : Float := 1
  /-- The divisor of the weight for each level. -/
  decay : Float := 1.4

namespace Query

/-- Whether a node of the symbol is taken. -/
def accepts (query : Query) (symbol : Symbol) : Bool :=
  query.filter.all (·.same symbol) && (!query.repetitionsOnly || symbol.isRepetition)

mutual

/-- The candidates of a tree whose root has the given depth and weight. -/
def candidatesFrom (query : Query) (depth : Nat) (weight : Float) : Tree → List Candidate
  | .text _ => []
  | .expansion symbol children =>
    if query.maxDepth < depth then []
    else
      (if query.accepts symbol then [⟨[], depth, weight⟩] else []) ++
        candidatesBelow query (depth + 1) (weight / query.decay) 0 children

/-- The candidates of children in a row, the first of them at `position`. -/
def candidatesBelow (query : Query) (depth : Nat) (weight : Float) (position : Nat) :
    List Tree → List Candidate
  | [] => []
  | child :: rest =>
    (candidatesFrom query depth weight child).map (Candidate.below position) ++
      candidatesBelow query depth weight (position + 1) rest

end

/-- All candidates of a tree, in preorder. A walk over the tree that fills a list meets just
    these, so that the list may be told without the walk. -/
def collect (query : Query) (tree : Tree) : List Candidate :=
  query.candidatesFrom query.startDepth query.weight tree

/-- All candidates of a tree whose root may have any depth. It is a fault if an inner
    node below the greatest depth would have to be visited: the depth limit does not
    keep it away, and the tree reaches down to it. -/
def collectFrom (query : Query) (tree : Tree) : Except Fault (List Candidate) :=
  if Depth.greatest ≤ query.maxDepth ∧ Depth.greatest < query.startDepth + tree.innerHeight then
    .error .depthUncountable
  else .ok (query.collect tree)

end Query

end Graft
