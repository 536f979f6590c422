import Graft.Mutation.Mutator
import Graft.Sharing.Process

/-!
# Mutators at work side by side

Mutators with one corpus may be asked at the same time. What each of them then
does is an errand: its choices come from a source of its own, and it looks at the
corpus or adds to it by accesses, between which the other mutators have theirs.
-/

namespace Graft

/-- The surroundings of a request among others: the corpus is looked at for each attempt. -/
def Surroundings.amongOthers {σ : Type} : Surroundings σ (Errand (Stop MutationError) σ) where
  look _ := Errand.ask .look
  trial := Errand.trial

namespace Mutator

open Graft.Random

variable {σ : Type} [Source σ]

/-- Generate a sample. -/
def generating (mutator : Mutator) : Errand (Stop MutationError) σ Bytes :=
  Errand.trial mutator.generateSample

/-- Read an interesting sample. Its tree enters the corpus and can be bound. -/
def creatingContext (mutator : Mutator) (sample : Bytes) : Errand (Stop MutationError) σ Tree :=
  match mutator.engine.grammar.readSample sample with
  | .ok tree => do
    let _ ← Errand.ask (.register tree)
    return tree
  | .error refusal => throw (refusal.mapError .sample)

/-- Answer a request. -/
def mutating (mutator : Mutator) : Errand (Stop MutationError) σ (Mutator × Bytes) :=
  mutateWithin .amongOthers mutator

end Mutator

end Graft
