import Graft.Mutation.Workbench
import Graft.Proofs.Mutation.Request

/-!
# What a call at a workbench does

A call is answered or not, and in either case there is a workbench afterwards and
perhaps a sample that has been written. All that can happen is listed here, one
case for each kind of answer, so that whatever holds along a run is seen to hold
case by case. A call that is refused, is abandoned or is addressed to nothing
changes nothing but the journal.
-/

namespace Graft.Workbench

open Graft.Random

variable {σ : Type}

/-- A slot holds what it is filled with, whatever it has held before. -/
@[simp] theorem sample_fill (bench : Workbench σ) (slot : Nat) (sample : Bytes) :
    (bench.fill slot sample).sample slot = sample := by
  simp [Workbench.sample, fill]

/-- A sample that a call has written, and the mutator that wrote it, as it was before. -/
structure Writing where
  mutator : Mutator
  sample : Bytes

/-- What goes on from a look at the workbench goes on with the workbench, and the look changes
nothing. -/
theorem get_bind {α : Type} (bench : Workbench σ) (next : Workbench σ → Bench σ α) :
    (get >>= next : Bench σ α) bench = next bench bench := rfl

/-- What goes on from a trial goes on with its answer, at the workbench with the journal
that the trial has left. -/
theorem trial_bind {α β : Type} (bench : Workbench σ) (program : Trial MutationError σ α)
    (next : α → Bench σ β) :
    (trial program >>= next : Bench σ β) bench =
      match program bench.journal with
      | .ok value journal => next value { bench with journal }
      | .error stop journal => .error stop { bench with journal } := by
  simp only [bind, EStateM.bind, trial]
  cases program bench.journal <;> rfl

variable [Source σ]

/-- A mutator is added if the grammar has the root symbol that its settings name. Otherwise the
workbench is left as it was. -/
theorem perform_create (bench : Workbench σ) (settings : Settings) :
    perform (.create settings) bench =
      match Mutator.create bench.grammar settings bench.patience with
      | .ok mutator => .ok () { bench with mutators := bench.mutators.push mutator }
      | .error error => .error (.error error) bench := by
  simp only [perform, get_bind]
  cases Mutator.create bench.grammar settings bench.patience <;> rfl

/-- A generated sample fills the slot. If the growth stops, the journal is all that has changed. -/
theorem perform_generate (bench : Workbench σ) (number slot : Nat) :
    perform (.generate number slot) bench =
      match bench.mutators[number]? with
      | none => .ok () bench
      | some mutator =>
        match mutator.generateSample bench.journal with
        | .ok sample journal => .ok () (fill { bench with journal } slot sample)
        | .error stop journal => .error stop { bench with journal } := by
  simp only [perform, get_bind]
  cases bench.mutators[number]? with
  | none => rfl
  | some mutator =>
    simp only [trial_bind]
    cases mutator.generateSample bench.journal <;> rfl

/-- The tree of a sample that is read enters the corpus and can be bound. A sample that is not read
leaves the workbench as it was. -/
theorem perform_createContext (bench : Workbench σ) (number slot : Nat) :
    perform (.createContext number slot) bench =
      match bench.mutators[number]? with
      | none => .ok () bench
      | some mutator =>
        match mutator.createContext bench.corpus (bench.sample slot) with
        | .ok (tree, corpus) => .ok () { bench with corpus, contexts := bench.contexts.push tree }
        | .error stop => .error stop bench := by
  simp only [perform, get_bind]
  cases bench.mutators[number]? with
  | none => rfl
  | some mutator =>
    dsimp only
    cases mutator.createContext bench.corpus (bench.sample slot) <;> rfl

/-- A tree is bound to one mutator, and the others keep theirs. Without the mutator or the context
nothing happens. -/
theorem perform_initRound (bench : Workbench σ) (number context : Nat) :
    perform (.initRound number context) bench =
      match bench.mutators[number]?, bench.contexts[context]? with
      | some mutator, some tree =>
        .ok () { bench with
          mutators := bench.mutators.setIfInBounds number (mutator.initRound tree) }
      | _, _ => .ok () bench := by
  simp only [perform, get_bind]
  cases bench.mutators[number]? <;> cases bench.contexts[context]? <;> rfl

/-- A mutated sample fills the slot, and the mutator keeps its counts. A request that stops leaves
the counts of before. -/
theorem perform_mutate (bench : Workbench σ) (number slot : Nat) :
    perform (.mutate number slot) bench =
      match bench.mutators[number]? with
      | none => .ok () bench
      | some mutator =>
        match mutator.mutate bench.corpus bench.journal with
        | .ok answer journal =>
          .ok () (fill { bench with
            journal, mutators := bench.mutators.setIfInBounds number answer.1 } slot answer.2)
        | .error stop journal => .error stop { bench with journal } := by
  simp only [perform, get_bind]
  cases bench.mutators[number]? with
  | none => rfl
  | some mutator =>
    simp only [trial_bind]
    cases mutator.mutate bench.corpus bench.journal <;> rfl

/-- The workbench once a call is over, whether it was answered or not. -/
def after (bench : Workbench σ) (call : Call) : Workbench σ :=
  match perform call bench with
  | .ok _ next | .error _ next => next

/-- What a call writes: a slot is filled by the calls to generate and to mutate that are
answered. -/
def writing? (bench : Workbench σ) (call : Call) : Option Writing :=
  match call, perform call bench with
  | .generate number slot, .ok _ next | .mutate number slot, .ok _ next =>
    bench.mutators[number]?.map fun mutator => { mutator, sample := next.sample slot }
  | _, _ => none

/-- What a call can do: the workbench it leaves, and what it writes. -/
inductive Step (bench : Workbench σ) : Call → Workbench σ → Option Writing → Prop where
  /-- Nothing is done, whatever has been drawn and noted. -/
  | idle (call : Call) (journal : Journal σ) : Step bench call { bench with journal } none
  /-- A mutator is added. -/
  | created (settings : Settings) (engine : Engine)
      (found : Engine.ofSettings? bench.grammar settings bench.patience = some engine) :
      Step bench (.create settings) { bench with mutators := bench.mutators.push { engine } } none
  /-- A sample is put into a slot. -/
  | stored (slot : Nat) (sample : Bytes) :
      Step bench (.store slot sample) (bench.fill slot sample) none
  /-- A tree is put into the corpus. -/
  | registered (tree : Tree) :
      Step bench (.register tree) { bench with corpus := bench.corpus.register tree } none
  /-- A tree is made one that can be bound. -/
  | adopted (tree : Tree) :
      Step bench (.adopt tree) { bench with contexts := bench.contexts.push tree } none
  /-- The sample of a growth of the root symbol fills a slot. -/
  | generated (number slot : Nat) (mutator : Mutator) (journal : Journal σ) (tree : Tree)
      (found : bench.mutators[number]? = some mutator)
      (grown : mutator.engine.grammar.GrowsAt mutator.engine.root 0 tree) :
      Step bench (.generate number slot) (fill { bench with journal } slot tree.toSample)
        (some { mutator, sample := tree.toSample })
  /-- The sample in a slot is read as a tree, which enters the corpus and can be bound. -/
  | contextCreated (number slot : Nat) (mutator : Mutator) (tree : Tree)
      (found : bench.mutators[number]? = some mutator)
      (read : mutator.engine.grammar.readSample (bench.sample slot) = .ok tree) :
      Step bench (.createContext number slot)
        { bench with corpus := bench.corpus.register tree, contexts := bench.contexts.push tree }
        none
  /-- A tree is bound. -/
  | bound (number context : Nat) (mutator : Mutator) (tree : Tree)
      (found : bench.mutators[number]? = some mutator)
      (placed : bench.contexts[context]? = some tree) :
      Step bench (.initRound number context)
        { bench with mutators := bench.mutators.setIfInBounds number (mutator.initRound tree) } none
  /-- A request is served, with the corpus as it is, and its sample fills a slot. -/
  | mutated (number slot : Nat) (mutator : Mutator) (journal : Journal σ) (tree : Tree)
      (answer : Mutator × Bytes) (found : bench.mutators[number]? = some mutator)
      (binds : mutator.bound = some tree)
      (served : mutator.Served (fun _ => bench.corpus) tree answer) :
      Step bench (.mutate number slot)
        (fill { bench with
          journal, mutators := bench.mutators.setIfInBounds number answer.1 } slot answer.2)
        (some { mutator, sample := answer.2 })

/-- A call does one of these things. Whatever is kept along a run is shown for each of them once,
and `perform` is not opened again. -/
theorem step (bench : Workbench σ) (call : Call) :
    Step bench call (bench.after call) (bench.writing? call) := by
  cases call with
  | create settings =>
    simp only [after, writing?, perform_create, Mutator.create]
    cases found : Engine.ofSettings? bench.grammar settings bench.patience with
    | none => exact .idle _ bench.journal
    | some engine => exact .created settings engine found
  | store slot sample => exact .stored slot sample
  | register tree => exact .registered tree
  | adopt tree => exact .adopted tree
  | generate number slot =>
    simp only [after, writing?, perform_generate]
    cases found : bench.mutators[number]? with
    | none =>
      simp only [found]
      exact .idle _ bench.journal
    | some mutator =>
      dsimp only
      have known := mutator.generateSample_ends bench.journal
      cases answered : mutator.generateSample bench.journal with
      | error stop journal => exact .idle _ journal
      | ok sample journal =>
        simp only [answered] at known ⊢
        obtain ⟨tree, rfl, grown⟩ := known
        rw [found, Option.map_some, sample_fill]
        exact .generated number slot mutator journal tree found grown
  | createContext number slot =>
    simp only [after, writing?, perform_createContext, Mutator.createContext]
    cases found : bench.mutators[number]? with
    | none => exact .idle _ bench.journal
    | some mutator =>
      dsimp only
      cases read : mutator.engine.grammar.readSample (bench.sample slot) with
      | error refusal => exact .idle _ bench.journal
      | ok tree => exact .contextCreated number slot mutator tree found read
  | initRound number context =>
    simp only [after, writing?, perform_initRound]
    cases found : bench.mutators[number]? with
    | none => exact .idle _ bench.journal
    | some mutator =>
      cases placed : bench.contexts[context]? with
      | none => exact .idle _ bench.journal
      | some tree => exact .bound number context mutator tree found placed
  | mutate number slot =>
    simp only [after, writing?, perform_mutate]
    cases found : bench.mutators[number]? with
    | none =>
      simp only [found]
      exact .idle _ bench.journal
    | some mutator =>
      dsimp only
      cases binds : mutator.bound with
      | none =>
        have refused : mutator.mutate bench.corpus bench.journal =
            .error (.error .nothingBound) bench.journal := by
          rw [Mutator.mutate, Mutator.mutateAmid_of_unbound _ binds]
          rfl
        simp only [refused]
        exact .idle _ bench.journal
      | some tree =>
        have known := mutator.mutateAmid_serves (fun _ => bench.corpus) binds bench.journal
        rw [← Mutator.mutate] at known
        cases answered : mutator.mutate bench.corpus bench.journal with
        | error stop journal => exact .idle _ journal
        | ok answer journal =>
          simp only [answered] at known ⊢
          rw [found, Option.map_some, sample_fill]
          exact .mutated number slot mutator journal tree answer found binds known

end Graft.Workbench
