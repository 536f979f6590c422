import Graft.Proofs.Mutation.Locality

/-!
# Counts account for every request

A mutator adds to its counts with every request that it answers, and with nothing
else. What it adds says how the request ended: a new tree was grown, or no attempt
succeeded, or some did. So the counts of a mutator are put together from those of
its requests, and what relates the counts of one request relates those of all.
-/

namespace Graft

/-- Attempts that all fail leave the tree as it is, since every one of them starts from the tree
that the one before it has left. -/
theorem Follows.eq_of_none {engine : Engine} {corpus : Nat → Corpus} {trace : List Attempted}
    {tree result : Tree} (follows : Follows engine corpus trace tree result)
    (none : trace.any Prod.snd = false) : result = tree := by
  induction follows with
  | done tree => rfl
  | failed strategy rest inductionHypothesis =>
    rw [List.any_cons, Bool.or_eq_false_iff] at none
    exact inductionHypothesis none.2
  | applied strategy picked moment applies rest inductionHypothesis =>
    rw [List.any_cons, Bool.true_or] at none
    cases none

/-- What a request adds to the counts, when so many attempts are granted to it, it starts from a
bound tree and it writes a sample. -/
inductive Accounted (granted : Nat) (bound : Tree) (sample : Bytes) : Tally → Prop where
  /-- A new tree was grown, and nothing was attempted. -/
  | regenerated : Accounted granted bound sample { requests := 1, regenerations := 1 }
  /-- All attempts that were granted were made in vain, and the bound tree is written as it is. -/
  | unproductive (attempts : PerStrategy Nat) (exhausted : attempts.total = granted)
      (same : sample = bound.toSample) :
      Accounted granted bound sample { requests := 1, unproductive := 1, attempts }
  /-- Some attempts were made, and one succeeded at least. -/
  | productive (attempts successes : PerStrategy Nat) (some : 1 ≤ attempts.total)
      (within : attempts.total ≤ granted) (succeeded : 1 ≤ successes.total)
      (fewer : ∀ strategy, successes.get strategy ≤ attempts.get strategy) :
      Accounted granted bound sample { requests := 1, attempts, successes }

/-- A request that is served adds what it accounts for. What was counted before is merged with it
and is not looked at. -/
theorem Mutator.Served.accounted {mutator : Mutator} {corpus : Nat → Corpus} {bound : Tree}
    {answer : Mutator × Bytes} (served : mutator.Served corpus bound answer) :
    ∃ increment, answer.1.tally = mutator.tally.merge increment ∧
      Accounted mutator.engine.settings.maxMutationAttempts bound answer.2 increment := by
  cases served with
  | regenerated tree grown => exact ⟨_, rfl, .regenerated⟩
  | edited trace sites donors result follows granted exhausted =>
    generalize attempted : ({} : Tally).recordAll trace = counts
    have total : counts.attempts.total = trace.length := by
      rw [← attempted, Tally.attempts_recordAll]
      exact Nat.zero_add _
    have ends := Tally.recordAll_ends {} trace
    have apart := mutator.tally.recordAll_eq_merge trace
    rw [attempted] at ends apart
    simp only [apart, Tally.merge, ends.1]
    cases some : trace.any Prod.snd with
    | false =>
      have same := follows.eq_of_none some
      have barren := Tally.successes_recordAll_of_none {} some
      rw [attempted] at barren
      rw [barren]
      exact ⟨_, rfl, .unproductive counts.attempts (total.trans (exhausted some))
        (congrArg Tree.toSample same)⟩
    | true =>
      have succeeded := Tally.successes_recordAll_of_some {} some
      have fewer := Tally.successes_recordAll_le {} trace fun _ => Nat.le_refl _
      rw [attempted] at succeeded fewer
      have made : 1 ≤ trace.length := List.length_pos_of_ne_nil (by rintro rfl; cases some)
      exact ⟨_, rfl, .productive counts.attempts counts.successes (total ▸ made)
        (total ▸ granted) succeeded fewer⟩

/-! ## What the counts keep to -/

/-- The counts of requests to which so many attempts are granted keep to one another. -/
structure Tally.Balanced (granted : Nat) (tally : Tally) : Prop where
  successes : ∀ strategy, tally.successes.get strategy ≤ tally.attempts.get strategy
  ends : tally.regenerations + tally.unproductive ≤ tally.requests
  attempts : tally.attempts.total ≤ granted * (tally.requests - tally.regenerations)

/-- Nothing counted is balanced, which is where a new mutator starts. -/
theorem Tally.balanced_nothing (granted : Nat) : ({} : Tally).Balanced granted :=
  ⟨fun _ => Nat.le_refl _, Nat.le_refl _, Nat.zero_le _⟩

/-- What a request adds is balanced by itself, whether it grows a sample afresh or edits the bound
tree. -/
theorem Accounted.balanced {granted : Nat} {bound : Tree} {sample : Bytes} {increment : Tally}
    (accounted : Accounted granted bound sample increment) : increment.Balanced granted := by
  cases accounted with
  | regenerated => exact ⟨fun _ => Nat.le_refl _, Nat.le_refl 1, Nat.zero_le _⟩
  | unproductive attempts exhausted same =>
    refine ⟨fun strategy => ?_, Nat.le_refl 1, ?_⟩
    · have none : (⟨0, 0, 0, 0⟩ : PerStrategy Nat).get strategy = 0 := by cases strategy <;> rfl
      rw [none]
      exact Nat.zero_le _
    · exact Nat.le_of_eq (exhausted.trans (Nat.mul_one granted).symm)
  | productive attempts successes some within succeeded fewer =>
    exact ⟨fewer, Nat.zero_le 1, Nat.le_trans within (Nat.le_of_eq (Nat.mul_one granted).symm)⟩

/-- Counts that are balanced are so together. All that is asked of them are inequalities between
counts that add up. -/
theorem Tally.Balanced.merge {granted : Nat} {left right : Tally} (first : left.Balanced granted)
    (second : right.Balanced granted) : (left.merge right).Balanced granted := by
  constructor
  · intro strategy
    have both := Nat.add_le_add (first.successes strategy) (second.successes strategy)
    cases strategy <;> exact both
  · have both := Nat.add_le_add first.ends second.ends
    simp only [Tally.merge]
    omega
  · have together : (left.merge right).attempts.total =
        left.attempts.total + right.attempts.total := by
      simp only [Tally.merge, PerStrategy.zipWith, PerStrategy.total]
      omega
    have apart : (left.merge right).requests - (left.merge right).regenerations =
        (left.requests - left.regenerations) + (right.requests - right.regenerations) := by
      have leftEnds := first.ends
      have rightEnds := second.ends
      simp only [Tally.merge]
      omega
    rw [together, apart, Nat.mul_add]
    exact Nat.add_le_add first.attempts second.attempts

/-! ## A mutator in use -/

namespace Mutator

open Graft.Random

/-- A request that has returned: the tree that was bound, if one was, the sample that was
written or why none was, and the counts before and after. -/
structure Returned where
  bound : Option Tree
  result : Except MutationError Bytes
  before : Tally
  after : Tally

variable {σ : Type} [Source σ]

/-- The uses of a mutator since it was new: calls that return, one after the other, each with
a source of its own and with whatever the corpus holds at its time, and during a request also
from one attempt to the next. Its requests are listed, the latest first. -/
inductive Used (σ : Type) [Source σ] (engine : Engine) : Mutator → List Returned → Prop where
  /-- The mutator is new. -/
  | new : Used σ engine { engine } []
  /-- A sample is generated. -/
  | generated {mutator : Mutator} {requests : List Returned} {journal next : Journal σ}
      {sample : Bytes} (before : Used σ engine mutator requests)
      (returns : mutator.generateSample journal = .ok sample next) :
      Used σ engine mutator requests
  /-- A sample is read, or refused. -/
  | contextAsked {mutator : Mutator} {requests : List Returned} {corpus : Corpus}
      {sample : Bytes} (before : Used σ engine mutator requests)
      (returns : ∀ fault, mutator.createContext corpus sample ≠ .error (.fault fault)) :
      Used σ engine mutator requests
  /-- A tree is bound. -/
  | bound {mutator : Mutator} {requests : List Returned} (tree : Tree)
      (before : Used σ engine mutator requests) :
      Used σ engine (mutator.initRound tree) requests
  /-- A request is answered with a sample. -/
  | answered {mutator : Mutator} {requests : List Returned} {corpus : Nat → Corpus}
      {journal next : Journal σ} {answer : Mutator × Bytes}
      (before : Used σ engine mutator requests)
      (returns : mutator.mutateAmid corpus journal = .ok answer next) :
      Used σ engine answer.1
        ({ bound := mutator.bound, result := .ok answer.2,
           before := mutator.tally, after := answer.1.tally } :: requests)
  /-- A request is refused. -/
  | refused {mutator : Mutator} {requests : List Returned} {corpus : Nat → Corpus}
      {journal next : Journal σ} {error : MutationError}
      (before : Used σ engine mutator requests)
      (returns : mutator.mutateAmid corpus journal = .error (.error error) next) :
      Used σ engine mutator
        ({ bound := mutator.bound, result := .error error,
           before := mutator.tally, after := mutator.tally } :: requests)

/-- How a request that has returned is accounted for. Without a bound tree it is refused and
leaves the counts alone; with one it is answered, and adds what it accounts for. -/
def Returned.AccountedFor (granted : Nat) (request : Returned) : Prop :=
  match request.bound with
  | none => request.result = .error .nothingBound ∧ request.after = request.before
  | some bound => ∃ sample increment, request.result = .ok sample ∧
      request.after = request.before.merge increment ∧
        Accounted granted bound sample increment

/-- A request that is answered has a bound tree, and is accounted for. Neither the corpus nor the
source has a part in that. -/
theorem answered_accountedFor {mutator : Mutator} {corpus : Nat → Corpus}
    {journal next : Journal σ} {answer : Mutator × Bytes}
    (returns : mutator.mutateAmid corpus journal = .ok answer next) :
    ∃ bound increment, mutator.bound = some bound ∧ answer.1.engine = mutator.engine ∧
      answer.1.tally = mutator.tally.merge increment ∧
        Accounted mutator.engine.settings.maxMutationAttempts bound answer.2 increment := by
  cases binds : mutator.bound with
  | none =>
    rw [mutateAmid_of_unbound corpus binds] at returns
    cases returns
  | some bound =>
    have served := mutateAmid_serves mutator corpus binds journal
    rw [returns] at served
    obtain ⟨increment, tally, accounted⟩ := served.accounted
    exact ⟨bound, increment, rfl, (served.answers binds).1, tally, accounted⟩

/-- A request is refused only if there is no bound tree. With one it is answered, or abandoned for a
fault. -/
theorem refused_of_unbound {mutator : Mutator} {corpus : Nat → Corpus}
    {journal next : Journal σ} {error : MutationError}
    (returns : mutator.mutateAmid corpus journal = .error (.error error) next) :
    mutator.bound = none ∧ error = .nothingBound := by
  cases binds : mutator.bound with
  | none =>
    rw [mutateAmid_of_unbound corpus binds] at returns
    cases returns
    exact ⟨rfl, rfl⟩
  | some bound =>
    have abandoned := mutateAmid_serves mutator corpus binds journal
    rw [returns] at abandoned
    obtain ⟨fault, reached, stopped, -⟩ := abandoned
    cases stopped

/-- Counts account for every request. However a mutator is used since it was new, with whatever
corpora and sources, it has counted as many requests as were made with a bound tree. Each of
these was answered, and added to the counts in one of three ways: as a regeneration without any
attempt; as unproductive with all the attempts that are granted, none of them a success, and
with the sample of the bound tree written; or with some of the attempts that are granted and a
success among them. A request without a bound tree was refused and not counted. So at all times
no strategy has more successes than attempts, no more requests have ended in a regeneration or
in vain than were made, and there were no more attempts than are granted to the requests that
did not end in a regeneration. -/
theorem counts_account_for_requests {engine : Engine} {mutator : Mutator}
    {requests : List Returned} (used : Used σ engine mutator requests) :
    mutator.tally.requests = requests.countP (fun request => request.bound.isSome) ∧
      (∀ request ∈ requests, request.AccountedFor engine.settings.maxMutationAttempts) ∧
        (∀ strategy, mutator.tally.successes.get strategy ≤ mutator.tally.attempts.get strategy) ∧
          mutator.tally.regenerations + mutator.tally.unproductive ≤ mutator.tally.requests ∧
            mutator.tally.attempts.total ≤ engine.settings.maxMutationAttempts *
              (mutator.tally.requests - mutator.tally.regenerations) := by
  suffices all : mutator.engine = engine ∧
      mutator.tally.requests = requests.countP (fun request => request.bound.isSome) ∧
        (∀ request ∈ requests, request.AccountedFor engine.settings.maxMutationAttempts) ∧
          mutator.tally.Balanced engine.settings.maxMutationAttempts from
    ⟨all.2.1, all.2.2.1, all.2.2.2.successes, all.2.2.2.ends, all.2.2.2.attempts⟩
  induction used with
  | new => exact ⟨rfl, rfl, nofun, Tally.balanced_nothing _⟩
  | generated before returns inductionHypothesis => exact inductionHypothesis
  | contextAsked before returns inductionHypothesis => exact inductionHypothesis
  | bound tree before inductionHypothesis => exact inductionHypothesis
  | answered before returns inductionHypothesis =>
    obtain ⟨rfl, counted, accounted, balanced⟩ := inductionHypothesis
    obtain ⟨bound, increment, binds, engine, tally, adds⟩ := answered_accountedFor returns
    refine ⟨engine, ?_, ?_, ?_⟩
    · have one : increment.requests = 1 := by cases adds <;> rfl
      simp only [tally, Tally.merge, one, counted, binds, List.countP_cons, Option.isSome_some,
        ↓reduceIte]
    · rintro request (_ | ⟨_, member⟩)
      · simp only [Returned.AccountedFor, binds]
        exact ⟨_, increment, rfl, tally, adds⟩
      · exact accounted request member
    · rw [tally]
      exact balanced.merge adds.balanced
  | refused before returns inductionHypothesis =>
    obtain ⟨engine, counted, accounted, balanced⟩ := inductionHypothesis
    obtain ⟨unbound, rfl⟩ := refused_of_unbound returns
    refine ⟨engine, ?_, ?_, balanced⟩
    · simp only [unbound, counted, List.countP_cons, Option.isSome_none, Bool.false_eq_true,
        ↓reduceIte, Nat.add_zero]
    · rintro request (_ | ⟨_, member⟩)
      · simp only [Returned.AccountedFor, unbound, and_self]
      · exact accounted request member

/-- A mutator is asked before anything is bound, and then with the numeral of one bound. -/
theorem counts_account_for_requests_ofOne :
    ∃ (mutator : Mutator) (requests : List Returned), Used SplitMix ofOne.engine mutator requests ∧
      requests.length = 2 ∧ mutator.tally.requests = 1 ∧
        ∀ request ∈ requests,
          request.AccountedFor ofOne.engine.settings.maxMutationAttempts := by
  have unbound : ({ engine := ofOne.engine } : Mutator).mutateAmid (fun _ => .unbounded)
      ({ source := ⟨0⟩ } : Journal SplitMix) =
        .error (.error .nothingBound) { source := ⟨0⟩ } := rfl
  have early := Used.refused .new unbound
  have productive : (match ofOne.mutateAmid (fun _ => .unbounded)
      ({ source := ⟨0⟩ } : Journal SplitMix) with
    | .ok _ _ => true
    | .error _ _ => false) = true := by decide +kernel
  cases returns : ofOne.mutateAmid (fun _ => .unbounded) ({ source := ⟨0⟩ } : Journal SplitMix) with
  | error stop journal => simp [returns] at productive
  | ok answer journal =>
    have used := Used.answered (.bound Grammar.one early) returns
    have known := counts_account_for_requests used
    exact ⟨_, _, used, rfl, known.1, known.2.1⟩

end Mutator

end Graft
