import Graft.Candidate

/-!
# Walking a tree for its candidates

A list of candidates is kept from one edit to the next and filled anew for each. It
is emptied, and the tree is walked in preorder with the path to the node at hand:
before a child the walk goes down to its position, after it up again. A leaf is
passed over, but its position counts. A node that the query accepts is put at the
end of the list.

How depths are counted on the way down is left to whoever sends the walk out. A walk
may start at any depth, and then to go below the greatest depth that is counted is a
fault. The walks of a mutator start at depth zero, which no tree is deep enough to
lead them too far from, and they count on without end.
-/

namespace Graft

/-- A walk under way. -/
structure Walk where
  /-- The candidates met so far, in the order they were met. -/
  met : Array Candidate := #[]
  /-- The positions from the node at hand up to the root. -/
  trail : List Nat := []

namespace Walk

/-- Take the node at hand for a candidate. -/
def meet (depth : Nat) (weight : Float) (walk : Walk) : Walk :=
  { walk with met := walk.met.push ⟨walk.trail.reverse, depth, weight⟩ }

/-- Go down to the child at a position. -/
def enter (position : Nat) (walk : Walk) : Walk :=
  { walk with trail := position :: walk.trail }

/-- Go up again. -/
def leave (walk : Walk) : Walk :=
  { walk with trail := walk.trail.tail }

end Walk

namespace Query

section Walking

variable {m : Type → Type} [Monad m] (lower : Nat → m Nat)

mutual

/-- Walk the tree at hand, whose root has the given depth and weight. The depth of its
    children is told by `lower`. -/
def visit (query : Query) (depth : Nat) (weight : Float) : Tree → StateT Walk m Unit
  | .text _ => pure ()
  | .expansion symbol children => do
    if query.maxDepth < depth then return
    if query.accepts symbol then modify (Walk.meet depth weight)
    visitChildren query depth (weight / query.decay) 0 children

/-- Walk the children in a row of a node of the given depth. They have the given weight, and
    the first of them is at `position`. -/
def visitChildren (query : Query) (depth : Nat) (weight : Float) (position : Nat) :
    List Tree → StateT Walk m Unit
  | [] => pure ()
  | child :: rest => do
    unless child.isText do
      modify (Walk.enter position)
      visit query (← lower depth) weight child
      modify Walk.leave
    visitChildren query depth weight (position + 1) rest

end

/-- Fill a list of candidates with those of a tree, whatever it held before. The answer is the
    weight of the root. -/
def refillBy (query : Query) (tree : Tree) : StateT (List Candidate) m Float := do
  set ([] : List Candidate)
  let start : Walk := { met := (← get).toArray }
  let ((), walk) ← (query.visit lower query.startDepth query.weight tree).run start
  set walk.met.toList
  return query.weight

end Walking

/-- Fill a list of candidates, its depths counted as far as they can be. -/
def refill (query : Query) (tree : Tree) : StateT (List Candidate) (Except Fault) Float :=
  query.refillBy Depth.below tree

/-- What a list of candidates holds once a mutator has filled it. -/
def refilled (query : Query) (tree : Tree) (held : List Candidate) : List Candidate :=
  ((query.refillBy (fun depth => (pure (depth + 1) : Id Nat)) tree).run held).run.2

end Query

end Graft
