import Graft.Mutation.Tally
import Mathlib.Algebra.GroupWithZero.Nat

/-!
# Counts of attempts

The attempts of a request are listed in the order they are made, each with its
strategy and whether it succeeded. To count them one by one adds to the counts of
each strategy what the list says about it. A price for every strategy makes one
sum of the successes; it grows by the price of each success that is counted.
-/

namespace Graft

namespace PerStrategy

variable {α : Type}

/-- A table changes at the entry that is changed, and only there. With this law the four entries
need not be told apart. -/
theorem get_modify (table : PerStrategy α) (strategy other : Strategy) (change : α → α) :
    (table.modify strategy change).get other =
      if other = strategy then change (table.get other) else table.get other := by
  cases strategy <;> cases other <;> rfl

end PerStrategy

/-- An attempt that was made: its strategy, and whether it succeeded. -/
abbrev Attempted := Strategy × Bool

namespace Tally

/-- The counts after attempts one after the other. -/
def recordAll (tally : Tally) (trace : List Attempted) : Tally :=
  trace.foldl (fun counted attempted => counted.record attempted.1 attempted.2) tally

/-- What the successes counted so far come to at a price for each strategy. -/
def spent (tally : Tally) (price : Strategy → Nat) : Nat :=
  (Strategy.all.map fun strategy => tally.successes.get strategy * price strategy).sum

/-- What the successes among attempts come to at a price for each strategy. -/
def priceOf (price : Strategy → Nat) (trace : List Attempted) : Nat :=
  (trace.map fun attempted => if attempted.2 then price attempted.1 else 0).sum

/-- The first attempt adds its price to that of the others if it succeeded, and nothing if it
failed. -/
theorem priceOf_cons {price : Strategy → Nat} (strategy : Strategy) (succeeded : Bool)
    (trace : List Attempted) :
    priceOf price ((strategy, succeeded) :: trace) =
      (if succeeded then price strategy else 0) + priceOf price trace := by
  rw [priceOf, List.map_cons, List.sum_cons, priceOf]

variable (tally : Tally) (price : Strategy → Nat)

/-- Before the first attempt nothing is spent, at whatever prices. -/
theorem spent_nothing : ({} : Tally).spent price = 0 := by
  simp [spent, Strategy.all, PerStrategy.get]

/-- At a price of one the sum is the number of successes, which is how rewrites are counted. -/
theorem spent_one : tally.spent (fun _ => 1) = tally.successes.total := by
  simp [spent, Strategy.all, PerStrategy.get, PerStrategy.total, Nat.add_assoc]

/-- An attempt that is counted adds its price if it succeeded. Failures are counted as attempts, but
cost nothing. -/
theorem spent_record (strategy : Strategy) (succeeded : Bool) :
    (tally.record strategy succeeded).spent price =
      tally.spent price + if succeeded then price strategy else 0 := by
  cases succeeded with
  | false => rfl
  | true =>
    cases strategy <;>
      simp only [record, spent, Strategy.all, PerStrategy.get_modify, List.map_cons, List.map_nil,
        List.sum_cons, List.sum_nil, reduceCtorEq, ↓reduceIte, Nat.add_mul, Nat.one_mul] <;>
      omega

/-- Attempts that are counted add the prices of those that succeeded. The induction is on the
trace. -/
theorem spent_recordAll (trace : List Attempted) :
    (tally.recordAll trace).spent price = tally.spent price + priceOf price trace := by
  induction trace generalizing tally with
  | nil => rfl
  | cons attempted trace inductionHypothesis =>
    have counted := inductionHypothesis (tally.record attempted.1 attempted.2)
    rw [spent_record, Nat.add_assoc, ← priceOf_cons] at counted
    exact counted

/-- An attempt may be counted before or after counts are put together, as both only add. -/
theorem merge_record (start increment : Tally) (strategy : Strategy) (succeeded : Bool) :
    (start.merge increment).record strategy succeeded =
      start.merge (increment.record strategy succeeded) := by
  cases strategy <;> cases succeeded <;> rfl

/-- Attempts are counted alike however many requests have been. The number of requests stands beside
the counts of attempts. -/
theorem recordAll_requests (requests : Nat) (trace : List Attempted) :
    ({ tally with requests } : Tally).recordAll trace =
      { tally.recordAll trace with requests } := by
  induction trace generalizing tally with
  | nil => rfl
  | cons attempted trace inductionHypothesis =>
    exact inductionHypothesis (tally.record attempted.1 attempted.2)

/-- Attempts may be counted by themselves and put together with what was counted before. What a
request adds can thus be told by itself. -/
theorem recordAll_eq_merge (trace : List Attempted) :
    tally.recordAll trace = tally.merge (({} : Tally).recordAll trace) := by
  have apart : ∀ increment : Tally, (tally.merge increment).recordAll trace =
      tally.merge (increment.recordAll trace) := by
    induction trace with
    | nil => exact fun _ => rfl
    | cons attempted trace inductionHypothesis =>
      intro increment
      have further := inductionHypothesis (increment.record attempted.1 attempted.2)
      rw [← merge_record] at further
      exact further
  exact apart {}

/-- Every attempt is counted once, for one strategy. The total does not tell for which one. -/
theorem attempts_recordAll (trace : List Attempted) :
    (tally.recordAll trace).attempts.total = tally.attempts.total + trace.length := by
  induction trace generalizing tally with
  | nil => rfl
  | cons attempted trace inductionHypothesis =>
    have one : (tally.record attempted.1 attempted.2).attempts.total =
        tally.attempts.total + 1 := by
      cases attempted.1 <;> simp only [record, PerStrategy.modify, PerStrategy.total] <;> omega
    have further := inductionHypothesis (tally.record attempted.1 attempted.2)
    rw [one] at further
    rw [List.length_cons]
    exact further.trans (by omega)

/-- A success is counted with its attempt, so a strategy has no more successes than attempts. -/
theorem successes_recordAll_le (trace : List Attempted)
    (fewer : ∀ strategy, tally.successes.get strategy ≤ tally.attempts.get strategy) :
    ∀ strategy, (tally.recordAll trace).successes.get strategy ≤
      (tally.recordAll trace).attempts.get strategy := by
  induction trace generalizing tally with
  | nil => exact fewer
  | cons attempted trace inductionHypothesis =>
    refine inductionHypothesis (tally.record attempted.1 attempted.2) fun strategy => ?_
    have before := fewer strategy
    cases attempted.2 <;> simp only [record, PerStrategy.get_modify, Bool.false_eq_true, ↓reduceIte]
      <;> split <;> omega

/-- Attempts of which some succeed count a success. Successes are counted one by one, so that one is
enough. -/
theorem successes_recordAll_of_some {trace : List Attempted}
    (some : trace.any Prod.snd = true) : 1 ≤ (tally.recordAll trace).successes.total := by
  have paid : 1 ≤ priceOf (fun _ => 1) trace := by
    induction trace with
    | nil => cases some
    | cons attempted trace inductionHypothesis =>
      obtain ⟨strategy, succeeded⟩ := attempted
      rw [priceOf_cons]
      cases succeeded with
      | false => exact Nat.le_add_left_of_le (inductionHypothesis some)
      | true => exact Nat.le_add_right 1 _
  have counted := tally.spent_recordAll (fun _ => 1) trace
  rw [spent_one, spent_one] at counted
  omega

/-- Attempts that all fail count no success, for any strategy. -/
theorem successes_recordAll_of_none {trace : List Attempted}
    (none : trace.any Prod.snd = false) :
    (tally.recordAll trace).successes = tally.successes := by
  induction trace generalizing tally with
  | nil => rfl
  | cons attempted trace inductionHypothesis =>
    obtain ⟨strategy, succeeded⟩ := attempted
    rw [List.any_cons, Bool.or_eq_false_iff] at none
    obtain ⟨rfl, others⟩ : succeeded = false ∧ trace.any Prod.snd = false := none
    exact inductionHypothesis (tally.record strategy false) others

/-- How requests end is not counted with their attempts, but when the request is over. -/
theorem recordAll_ends (trace : List Attempted) :
    (tally.recordAll trace).regenerations = tally.regenerations ∧
      (tally.recordAll trace).unproductive = tally.unproductive := by
  induction trace generalizing tally with
  | nil => exact ⟨rfl, rfl⟩
  | cons attempted trace inductionHypothesis =>
    exact inductionHypothesis (tally.record attempted.1 attempted.2)

end Tally

end Graft
