import Graft.Random.Chance
import Graft.Tree.Basic

/-!
# The corpus of interesting trees

Trees are kept in the order of their registration. A corpus with a limit forgets
its oldest trees so that it never holds more than the limit, which is at least
one. Otherwise nothing is ever removed.
-/

namespace Graft

/-- The trees that mutators share as donors. -/
structure Corpus where
  /-- The most trees held at a time. -/
  limit : Option Nat := none
  trees : Array Tree := #[]

namespace Corpus

/-- A corpus that keeps everything. -/
def unbounded : Corpus := {}

/-- A corpus that keeps at most so many trees, and at least one. -/
def withLimit (limit : Nat) : Corpus :=
  { limit := some (max limit 1) }

/-- A corpus with an optional limit. -/
def ofCapacity : Option Nat → Corpus
  | some capacity => withLimit capacity
  | none => unbounded

/-- The number of trees held. -/
def size (corpus : Corpus) : Nat := corpus.trees.size

/-- Add a tree as the newest, forgetting the oldest ones as the limit demands. -/
def register (corpus : Corpus) (tree : Tree) : Corpus :=
  match corpus.limit with
  | none => { corpus with trees := corpus.trees.push tree }
  | some limit =>
    let kept := corpus.trees.extract (corpus.size + 1 - limit) corpus.size
    { corpus with trees := kept.push tree }

/-- The tree at a place, the oldest at place zero. -/
def get? (corpus : Corpus) (index : Nat) : Option Tree := corpus.trees[index]?

/-- Some tree, or none of an empty corpus, for which nothing is drawn. -/
def random {σ : Type} [Random.Source σ] (corpus : Corpus) : Chance σ (Option Tree) :=
  if corpus.size = 0 then pure none
  else do return corpus.get? (← Chance.remainder corpus.size)

end Corpus

end Graft
