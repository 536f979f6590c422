import Graft.Mutation.Strategy

/-!
# Counting what a mutator did

Every request ends in one of three ways: a new tree was grown, no attempt at an
edit succeeded, or some did. Attempts and successes are counted by strategy.
-/

namespace Graft

/-- The counts of one mutator, or of several together. -/
structure Tally where
  /-- Requests made with a bound tree. -/
  requests : Nat := 0
  /-- Requests answered by a newly grown tree. -/
  regenerations : Nat := 0
  /-- Requests in which no edit succeeded. -/
  unproductive : Nat := 0
  attempts : PerStrategy Nat := ⟨0, 0, 0, 0⟩
  successes : PerStrategy Nat := ⟨0, 0, 0, 0⟩
deriving DecidableEq, Repr

namespace Tally

/-- Count an attempt, and its success if it succeeded. -/
def record (tally : Tally) (strategy : Strategy) (succeeded : Bool) : Tally :=
  { tally with
    attempts := tally.attempts.modify strategy (· + 1)
    successes :=
      if succeeded then tally.successes.modify strategy (· + 1) else tally.successes }

/-- The counts of two mutators together. -/
def merge (left right : Tally) : Tally where
  requests := left.requests + right.requests
  regenerations := left.regenerations + right.regenerations
  unproductive := left.unproductive + right.unproductive
  attempts := left.attempts.zipWith (· + ·) right.attempts
  successes := left.successes.zipWith (· + ·) right.successes

/-- The counts of many mutators together. -/
def mergeAll (tallies : List Tally) : Tally :=
  tallies.foldl merge {}

end Tally

end Graft
