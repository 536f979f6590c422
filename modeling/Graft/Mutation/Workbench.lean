import Graft.Mutation.Mutator

/-!
# Several mutators at one corpus

A workbench holds mutators of one grammar, the corpus they share, the trees that
can be bound and samples in numbered slots. Calls address these by number; a slot
that was never filled holds the empty sample. A call that reports an error leaves
the workbench as it was, except for what it has drawn and noted.
-/

namespace Graft

/-- Mutators with all that they work on. -/
structure Workbench (σ : Type) where
  grammar : Grammar
  patience : Nat
  journal : Journal σ
  corpus : Corpus := {}
  mutators : Array Mutator := #[]
  /-- The trees that can be bound. -/
  contexts : Array Tree := #[]
  samples : List (Nat × Bytes) := []

/-- Something done at a workbench. -/
abbrev Bench (σ α : Type) := EStateM (Stop MutationError) (Workbench σ) α

/-- What can be asked of a workbench. -/
inductive Call where
  /-- Add a mutator. -/
  | create (settings : Settings)
  /-- Put a sample into a slot. -/
  | store (slot : Nat) (sample : Bytes)
  /-- Put a tree into the corpus. -/
  | register (tree : Tree)
  /-- Make a tree one that can be bound, without registering it. -/
  | adopt (tree : Tree)
  /-- Fill a slot with a generated sample. -/
  | generate (mutator slot : Nat)
  /-- Read an interesting sample from a slot. -/
  | createContext (mutator slot : Nat)
  /-- Bind a tree. -/
  | initRound (mutator context : Nat)
  /-- Fill a slot with a mutated sample. -/
  | mutate (mutator slot : Nat)

namespace Workbench

open Graft.Random

variable {σ : Type} [Source σ]

/-- The sample in a slot. -/
def sample (bench : Workbench σ) (slot : Nat) : Bytes :=
  (bench.samples.lookup slot).getD []

/-- Fill a slot. -/
def fill (bench : Workbench σ) (slot : Nat) (sample : Bytes) : Workbench σ :=
  { bench with samples := (slot, sample) :: bench.samples.filter fun held => held.1 != slot }

/-- The counts of all mutators together. -/
def tally (bench : Workbench σ) : Tally :=
  Tally.mergeAll (bench.mutators.toList.map Mutator.tally)

/-- Let a mutator act on the workbench's source and log. -/
def trial {α : Type} (trial : Trial MutationError σ α) : Bench σ α := fun bench =>
  match trial bench.journal with
  | .ok value journal => .ok value { bench with journal }
  | .error stop journal => .error stop { bench with journal }

/-- Answer a call. A call to a mutator or for a tree that is not there does
    nothing. -/
def perform : Call → Bench σ Unit
  | .create settings => do
    let bench ← get
    match Mutator.create bench.grammar settings bench.patience with
    | .ok mutator => set { bench with mutators := bench.mutators.push mutator }
    | .error error => throw (.error error)
  | .store slot sample => modify fun bench => bench.fill slot sample
  | .register tree => modify fun bench => { bench with corpus := bench.corpus.register tree }
  | .adopt tree => modify fun bench => { bench with contexts := bench.contexts.push tree }
  | .generate number slot => do
    match (← get).mutators[number]? with
    | none => return
    | some mutator =>
      let sample ← trial mutator.generateSample
      modify fun bench => bench.fill slot sample
  | .createContext number slot => do
    let bench ← get
    match bench.mutators[number]? with
    | none => return
    | some mutator =>
      match mutator.createContext bench.corpus (bench.sample slot) with
      | .ok (tree, corpus) => set { bench with corpus, contexts := bench.contexts.push tree }
      | .error stop => throw stop
  | .initRound number context => do
    let bench ← get
    match bench.mutators[number]?, bench.contexts[context]? with
    | some mutator, some tree =>
      set { bench with mutators := bench.mutators.setIfInBounds number (mutator.initRound tree) }
    | _, _ => return
  | .mutate number slot => do
    let bench ← get
    match bench.mutators[number]? with
    | none => return
    | some mutator =>
      let (mutator, sample) ← trial (mutator.mutate bench.corpus)
      modify fun bench =>
        { bench with mutators := bench.mutators.setIfInBounds number mutator }.fill slot sample

end Workbench

end Graft
