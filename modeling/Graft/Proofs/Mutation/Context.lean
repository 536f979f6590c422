import Graft.Proofs.Mutation.Run
import Graft.Proofs.Sample.Totality

/-!
# Contexts from any sample

A context is asked for with whatever is in a slot, which need not come from this
program. It is created with its one tree put into the corpus, or the call leaves
no trace.
-/

namespace Graft

namespace Workbench

open Graft.Random

variable {σ : Type} [Source σ]

/-- Any sample is read as a tree, is refused, or declares a length that no allocation can hold,
and the last is the one fault of reading. A context is created from a sample that is read, with
its one tree put into the corpus; from any other sample none is, and the workbench stays as it
is. -/
theorem createContext_of_any_sample :
    (∀ (grammar : Grammar) (sample : Bytes),
      (∃ tree, grammar.readSample sample = .ok tree) ∨
        (∃ refusal, grammar.readSample sample = .error (.error refusal)) ∨
          ∃ length, grammar.readSample sample = .error (.fault (.oversizedLength length)) ∧
            Sample.Overdraws sample length) ∧
    (∀ (grammar : Grammar) (sample : Bytes) (length : Nat), Sample.Overdraws sample length →
      grammar.readSample sample = .error (.fault (.oversizedLength length))) ∧
    ∀ (bench : Workbench σ) (number slot : Nat) (mutator : Mutator),
      bench.mutators[number]? = some mutator →
        match perform (.createContext number slot) bench with
        | .ok _ next => ∃ tree,
          mutator.engine.grammar.readSample (bench.sample slot) = .ok tree ∧
            next = { bench with
              corpus := bench.corpus.register tree, contexts := bench.contexts.push tree }
        | .error stop next => next = bench ∧
          ((∃ refusal, stop = .error (.sample refusal)) ∨
            ∃ length, stop = .fault (.oversizedLength length) ∧
              Sample.Overdraws (bench.sample slot) length) := by
  refine ⟨?read, ?overdrawn, ?context⟩
  case read =>
    intro grammar sample
    cases read : grammar.readSample sample with
    | ok tree => exact .inl ⟨tree, rfl⟩
    | error stop =>
      cases stop with
      | error refusal => exact .inr (.inl ⟨refusal, rfl⟩)
      | fault fault =>
        obtain ⟨length, rfl, overdraws⟩ := Grammar.readSample_eq_fault_iff.mp read
        exact .inr (.inr ⟨length, rfl, overdraws⟩)
  case overdrawn =>
    intro grammar sample length overdraws
    exact Grammar.readSample_eq_fault_iff.mpr ⟨length, rfl, overdraws⟩
  case context =>
    intro bench number slot mutator found
    simp only [perform_createContext, found, Mutator.createContext]
    cases read : mutator.engine.grammar.readSample (bench.sample slot) with
    | ok tree => exact ⟨tree, rfl, rfl⟩
    | error stop =>
      refine ⟨rfl, ?_⟩
      cases stop with
      | error refusal => exact .inl ⟨refusal, rfl⟩
      | fault fault =>
        obtain ⟨length, rfl, overdraws⟩ := Grammar.readSample_eq_fault_iff.mp read
        exact .inr ⟨length, rfl, overdraws⟩

/-- A workbench with a mutator of binary numerals and the sample of one in a slot. -/
def withOne : Workbench SplitMix where
  grammar := .numerals
  patience := 50
  journal := { source := ⟨0⟩ }
  mutators := #[{
    engine :=
      { grammar := .numerals
        settings := { rootSymbol := "list" }
        root := .repetition 0 "list" (.plain 1 "digit")
        patience := 50 } }]
  samples := [(0, Grammar.one.toSample)]

/-- A context is created from the sample of one, whose tree enters the corpus. -/
theorem createContext_of_any_sample_withOne :
    ∃ next tree, perform (.createContext 0 0) withOne = .ok () next ∧
      Grammar.numerals.readSample Grammar.one.toSample = .ok tree ∧
        next.corpus = withOne.corpus.register tree := by
  have known := (createContext_of_any_sample (σ := SplitMix)).2.2 withOne 0 0 _ rfl
  have answered : (match perform (.createContext 0 0) withOne with
      | .ok _ _ => true
      | .error _ _ => false) = true := by decide +kernel
  cases performed : perform (.createContext 0 0) withOne with
  | error stop next => simp [performed] at answered
  | ok value next =>
    rw [performed] at known
    obtain ⟨tree, read, rfl⟩ := known
    exact ⟨_, tree, rfl, read, rfl⟩

end Workbench

end Graft
