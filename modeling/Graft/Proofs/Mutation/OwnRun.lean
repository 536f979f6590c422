import Graft.Proofs.Mutation.Run
import Graft.Proofs.Sample.Totality
import Graft.Random.Script

/-!
# Runs on their own samples

A run may be fed with nothing but what it has written itself: no tree is put in
from outside, and a context is created only from a sample of the run. Whatever
grows and whatever is mutated then comes from the grammar alone, through the
corpus in any number of rounds.

What such a run keeps is stated as a law. A law holds of a tree within a budget.
It holds of new growths without one, and a strategy that succeeds spends the price
that the law sets on it. As every success is counted, so is the budget: it can be
read off the counts of the mutators, at every moment of the run.
-/

namespace Graft

/-- A sample of a conforming tree is read as no other tree, however large it is. -/
theorem Tree.Conforms.eq_of_readSample {grammar : Grammar} (wellFormed : grammar.WellFormed)
    {tree read : Tree} (conforms : tree.Conforms grammar)
    (short : tree.toSample.length ≤ Sample.allocationLimit)
    (readBack : grammar.readSample tree.toSample = .ok read) : read = tree := by
  rcases Sample.storable_or_overdraws tree.toWire short with storable | ⟨length, overdraws⟩
  · have same := conforms.readSample wellFormed storable
    exact Except.ok.inj (readBack.symm.trans same)
  · have overdrawn : Sample.Overdraws tree.toSample length := by
      have written := overdraws []
      rwa [List.append_nil] at written
    have faulty : grammar.readSample tree.toSample = .error (.fault (.oversizedLength length)) :=
      Grammar.readSample_eq_fault_iff.mpr ⟨length, rfl, overdrawn⟩
    rw [readBack] at faulty
    cases faulty

/-- A law about the trees of a grammar, kept by mutators with settings of some kind. -/
structure Law (grammar : Grammar) (admits : Settings → Prop) where
  /-- What holds of a tree within a budget. -/
  holds : Nat → Tree → Prop
  /-- What a success of a strategy spends. -/
  price : Settings → Strategy → Nat
  /-- A larger budget allows no less. -/
  mono : ∀ {less more : Nat} {tree : Tree}, less ≤ more → holds less tree → holds more tree
  /-- The law is about conforming trees. -/
  conforms : ∀ {budget : Nat} {tree : Tree}, holds budget tree → tree.Conforms grammar
  /-- What grows from a symbol of the grammar spends nothing. -/
  grown : ∀ {root : Symbol} {tree : Tree}, grammar.Owns root → grammar.GrowsAt root 0 tree →
    holds 0 tree
  /-- What a strategy that may be picked makes of a tree spends its price. -/
  applied : ∀ {engine : Engine} {corpus : Corpus} {strategy : Strategy} {budget : Nat}
    {tree result : Tree}, engine.grammar = grammar → admits engine.settings →
      (∀ other ∈ corpus.trees, holds budget other) → holds budget tree →
        engine.Picks strategy → Applies engine corpus strategy tree result →
          holds (budget + price engine.settings strategy) result

namespace Law

variable {grammar : Grammar} {admits : Settings → Prop} (law : Law grammar admits)

/-- Attempts one after the other spend the prices of those that succeed. The induction is on the
attempts, and each starts with the budget that those before it have left. -/
theorem follows {engine : Engine} (works : engine.grammar = grammar)
    (admitted : admits engine.settings) {corpus : Corpus} {trace : List Attempted}
    {tree result : Tree} (follows : Follows engine (fun _ => corpus) trace tree result)
    {budget : Nat} (shared : ∀ other ∈ corpus.trees, law.holds budget other)
    (holds : law.holds budget tree) :
    law.holds (budget + Tally.priceOf (law.price engine.settings) trace) result := by
  induction follows generalizing budget with
  | done tree => exact holds
  | failed strategy rest inductionHypothesis =>
    rw [Tally.priceOf_cons]
    simpa using inductionHypothesis shared holds
  | applied strategy picked moment applies rest inductionHypothesis =>
    have next := law.applied works admitted shared holds picked applies
    have wider : ∀ other ∈ corpus.trees,
        law.holds (budget + law.price engine.settings strategy) other :=
      fun other member => law.mono (Nat.le_add_right _ _) (shared other member)
    have last := inductionHypothesis wider next
    rw [Nat.add_assoc] at last
    rw [Tally.priceOf_cons]
    exact last

/-- What a mutator has spent, by the successes it has counted. -/
def spent (mutator : Mutator) : Nat :=
  mutator.tally.spent (law.price mutator.engine.settings)

/-- A request that is served spends no more than it is counted for, and its answer keeps to the
law within it. -/
theorem served {mutator : Mutator} (works : mutator.engine.grammar = grammar)
    (admitted : admits mutator.engine.settings) (owned : grammar.Owns mutator.engine.root)
    {corpus : Corpus} {bound : Tree} {answer : Mutator × Bytes}
    (served : mutator.Served (fun _ => corpus) bound answer) {budget : Nat}
    (shared : ∀ other ∈ corpus.trees, law.holds budget other) (holds : law.holds budget bound) :
    ∃ price tree, answer.2 = tree.toSample ∧ law.holds (budget + price) tree ∧
      law.spent answer.1 = law.spent mutator + price ∧ answer.1.engine = mutator.engine ∧
        answer.1.bound = mutator.bound := by
  cases served with
  | regenerated tree grown =>
    have fresh := law.grown owned (works ▸ grown)
    exact ⟨0, tree, rfl, law.mono (Nat.zero_le _) fresh, rfl, rfl, rfl⟩
  | edited trace sites donors result follows granted exhausted =>
    refine ⟨_, result, rfl, law.follows works admitted follows shared holds, ?_, rfl, rfl⟩
    exact mutator.tally.spent_recordAll (law.price mutator.engine.settings) trace

end Law

namespace Workbench

open Graft.Random

variable {σ : Type} {grammar : Grammar} {admits : Settings → Prop} (law : Law grammar admits)

/-- What the mutators of a workbench have spent together. -/
def budget (bench : Workbench σ) : Nat :=
  (bench.mutators.toList.map law.spent).sum

/-- The sum of a list changes with one of its entries by as much as the entry does. Nothing is taken
away, so that no difference of natural numbers is needed. -/
theorem sum_set {numbers : List Nat} {place old new : Nat} (found : numbers[place]? = some old) :
    (numbers.set place new).sum + old = numbers.sum + new := by
  induction numbers generalizing place with
  | nil => cases found
  | cons number rest inductionHypothesis =>
    cases place with
    | zero =>
      obtain rfl := Option.some.inj found
      simp only [List.set_cons_zero, List.sum_cons]
      omega
    | succ place =>
      have below := inductionHypothesis found
      simp only [List.set_cons_succ, List.sum_cons]
      omega

/-- The budget changes with one of the mutators by as much as the mutator spends, since it is the
sum of what they have spent. -/
theorem budget_setMutator {bench : Workbench σ} {number : Nat} {old new : Mutator}
    (found : bench.mutators[number]? = some old) {price : Nat}
    (spends : law.spent new = law.spent old + price) :
    budget law { bench with mutators := bench.mutators.setIfInBounds number new } =
      bench.budget law + price := by
  have placed : (bench.mutators.toList.map law.spent)[number]? = some (law.spent old) := by
    rw [List.getElem?_map, Array.getElem?_toList, found, Option.map_some]
  have changed : ((bench.mutators.toList.map law.spent).set number (law.spent new)).sum +
      law.spent old = bench.budget law + law.spent new := sum_set placed
  simp only [budget, Array.toList_setIfInBounds, List.map_set] at changed ⊢
  omega

/-- A mutator that has spent nothing leaves the budget as it is, which is so for each that is
new. -/
theorem budget_push (bench : Workbench σ) {mutator : Mutator} (idle : law.spent mutator = 0) :
    budget law { bench with mutators := bench.mutators.push mutator } = bench.budget law := by
  simp [budget, idle]

/-- The law holds of every tree on the workbench within its budget, and every mutator works with
the grammar, settings that are admitted and a symbol of the grammar for its root. -/
structure Obeys (bench : Workbench σ) : Prop where
  corpus : ∀ tree ∈ bench.corpus.trees, law.holds (bench.budget law) tree
  contexts : ∀ tree ∈ bench.contexts, law.holds (bench.budget law) tree
  engines : ∀ mutator ∈ bench.mutators, mutator.engine.grammar = grammar ∧
    admits mutator.engine.settings ∧ grammar.Owns mutator.engine.root
  bound : ∀ mutator ∈ bench.mutators, ∀ tree, mutator.bound = some tree →
    law.holds (bench.budget law) tree

/-- What is written is the sample of a tree that the law holds of within a budget. -/
def Within (budget : Nat) (writing : Writing) : Prop :=
  ∃ tree, writing.sample = tree.toSample ∧ law.holds budget tree

variable {law}

/-- A mutator that has spent more is put in place of another one. The trees that are kept hold the
law with the greater budget as well. -/
theorem Obeys.setMutator {bench : Workbench σ} (obeys : Obeys law bench) {number : Nat}
    {old new : Mutator} (found : bench.mutators[number]? = some old)
    (engine : new.engine = old.engine) {price : Nat}
    (spends : law.spent new = law.spent old + price)
    (binds : ∀ tree, new.bound = some tree → law.holds (bench.budget law) tree) :
    Obeys law { bench with mutators := bench.mutators.setIfInBounds number new } := by
  have budget := budget_setMutator law found spends
  have more : bench.budget law ≤
      Workbench.budget law { bench with mutators := bench.mutators.setIfInBounds number new } := by
    omega
  refine ⟨?_, ?_, ?_, ?_⟩
  · exact fun tree member => law.mono more (obeys.corpus tree member)
  · exact fun tree member => law.mono more (obeys.contexts tree member)
  · intro mutator member
    rcases Array.mem_or_eq_of_mem_setIfInBounds member with kept | rfl
    · exact obeys.engines mutator kept
    · rw [engine]
      exact obeys.engines old (Array.mem_of_getElem? found)
  · intro mutator member tree bound
    rcases Array.mem_or_eq_of_mem_setIfInBounds member with kept | rfl
    · exact law.mono more (obeys.bound mutator kept tree bound)
    · exact law.mono more (binds tree bound)

/-- A mutator that has spent nothing and binds nothing is added. The budget is then the same, and
there is no tree of its own to look at. -/
theorem Obeys.push {bench : Workbench σ} (obeys : Obeys law bench) {mutator : Mutator}
    (idle : law.spent mutator = 0) (works : mutator.engine.grammar = grammar)
    (admitted : admits mutator.engine.settings) (owned : grammar.Owns mutator.engine.root)
    (unbound : mutator.bound = none) :
    Obeys law { bench with mutators := bench.mutators.push mutator } := by
  have same := budget_push law bench idle
  refine ⟨?_, ?_, ?_, ?_⟩
  · exact fun tree member => law.mono (Nat.le_of_eq same.symm) (obeys.corpus tree member)
  · exact fun tree member => law.mono (Nat.le_of_eq same.symm) (obeys.contexts tree member)
  · intro other member
    rcases Array.mem_push.mp member with kept | rfl
    · exact obeys.engines other kept
    · exact ⟨works, admitted, owned⟩
  · intro other member tree binds
    rcases Array.mem_push.mp member with kept | rfl
    · exact law.mono (Nat.le_of_eq same.symm) (obeys.bound other kept tree binds)
    · rw [unbound] at binds
      cases binds

/-- A tree within the budget is put where trees are kept. In a full corpus others may be let go for
it, which takes nothing from the law. -/
theorem Obeys.keepTree {bench : Workbench σ} (obeys : Obeys law bench) {tree : Tree}
    (holds : law.holds (bench.budget law) tree) :
    (∀ other ∈ (bench.corpus.register tree).trees, law.holds (bench.budget law) other) ∧
      ∀ other ∈ bench.contexts.push tree, law.holds (bench.budget law) other := by
  constructor
  · intro other member
    rcases Corpus.mem_of_mem_register member with kept | rfl
    · exact obeys.corpus other kept
    · exact holds
  · intro other member
    rcases Array.mem_push.mp member with kept | rfl
    · exact obeys.contexts other kept
    · exact holds

/-! ## Own runs -/

/-- The calls of a run on its own samples. Mutators get settings that are admitted, no tree is
put in as it is, and a context is created only from a sample that the run has written, which as
a string of octets is no longer than an allocation can hold. -/
def Owns (admits : Settings → Prop) (bench : Workbench σ) (written : List Writing) : Call → Prop
  | .create settings => admits settings
  | .register _ | .adopt _ => False
  | .createContext _ slot => bench.sample slot ∈ written.map Writing.sample ∧
    (bench.sample slot).length ≤ Sample.allocationLimit
  | _ => True

/-- What a call has to keep, given what it writes. -/
structure Complies (law : Law grammar admits) (bench next : Workbench σ)
    (writing? : Option Writing) : Prop where
  grammar : next.grammar = bench.grammar
  budget : bench.budget law ≤ next.budget law
  obeys : Obeys law next
  within : ∀ writing, writing? = some writing → Within law (next.budget law) writing

/-- A call that only fills a slot and leaves its mark in the journal keeps to the law, if what it
writes does. -/
theorem Obeys.complies {bench : Workbench σ} (obeys : Obeys law bench) (journal : Journal σ)
    (samples : List (Nat × Bytes)) {writing? : Option Writing}
    (within : ∀ writing, writing? = some writing → Within law (bench.budget law) writing) :
    Complies law bench { bench with journal, samples } writing? :=
  ⟨rfl, Nat.le_refl _, ⟨obeys.corpus, obeys.contexts, obeys.engines, obeys.bound⟩, within⟩

/-- Every call of a run on its own samples keeps to the law. A sample that is read back is one that
has been written, and its tree is the one it was written from. -/
theorem Obeys.step {bench : Workbench σ} (obeys : Obeys law bench)
    (same : bench.grammar = grammar) (wellFormed : grammar.WellFormed) {written : List Writing}
    (within : ∀ writing ∈ written, Within law (bench.budget law) writing) {call : Call}
    (owns : Owns admits bench written call) {next : Workbench σ} {writing? : Option Writing}
    (step : Step bench call next writing?) : Complies law bench next writing? := by
  cases step with
  | idle call journal => exact obeys.complies journal bench.samples nofun
  | created settings engine found =>
    obtain ⟨root, rooted, made⟩ := Option.map_eq_some_iff.mp found
    rw [same] at rooted
    have idle : law.spent { engine } = 0 := Tally.spent_nothing _
    subst made
    exact ⟨rfl, Nat.le_of_eq (budget_push law bench idle).symm,
      obeys.push idle same owns (wellFormed.owns_of_symbol? rooted) rfl, nofun⟩
  | stored slot sample => exact obeys.complies bench.journal _ nofun
  | registered tree => exact owns.elim
  | adopted tree => exact owns.elim
  | generated number slot mutator journal tree found grown =>
    obtain ⟨works, -, owned⟩ := obeys.engines mutator (Array.mem_of_getElem? found)
    have fresh := law.grown owned (works ▸ grown)
    refine obeys.complies journal _ ?_
    rintro writing ⟨⟩
    exact ⟨tree, rfl, law.mono (Nat.zero_le _) fresh⟩
  | contextCreated number slot mutator tree found read =>
    obtain ⟨works, -, -⟩ := obeys.engines mutator (Array.mem_of_getElem? found)
    obtain ⟨member, short⟩ := owns
    obtain ⟨writing, present, sample⟩ := List.mem_map.mp member
    obtain ⟨origin, origins, holds⟩ := within writing present
    rw [works, ← sample, origins] at read
    rw [← sample, origins] at short
    obtain rfl := (law.conforms holds).eq_of_readSample wellFormed short read
    obtain ⟨corpus, contexts⟩ := obeys.keepTree holds
    exact ⟨rfl, Nat.le_refl _, ⟨corpus, contexts, obeys.engines, obeys.bound⟩, nofun⟩
  | bound number context mutator tree found placed =>
    have nothing : law.spent (mutator.initRound tree) = law.spent mutator + 0 := rfl
    refine ⟨rfl, Nat.le_of_eq (budget_setMutator law found nothing).symm,
      obeys.setMutator found rfl nothing ?_, nofun⟩
    rintro other ⟨⟩
    exact obeys.contexts tree (Array.mem_of_getElem? placed)
  | mutated number slot mutator journal tree answer found binds served =>
    have member := Array.mem_of_getElem? found
    obtain ⟨works, admitted, owned⟩ := obeys.engines mutator member
    obtain ⟨price, result, sample, holds, spends, engine, bound⟩ := law.served works admitted owned
      served obeys.corpus (obeys.bound mutator member tree binds)
    have next := obeys.setMutator found engine spends fun other bindsOther =>
      obeys.bound mutator member other (bound ▸ bindsOther)
    have budget := budget_setMutator law found spends
    refine ⟨rfl, ?_, ⟨next.corpus, next.contexts, next.engines, next.bound⟩, ?_⟩
    · exact Nat.le_trans (Nat.le_add_right _ price) (Nat.le_of_eq budget.symm)
    · rintro writing ⟨⟩
      exact ⟨result, sample, law.mono (Nat.le_of_eq budget.symm) holds⟩

variable [Source σ]

/-- The runs on their own samples, with the workbench that each leads to and what it has written
on the way, latest first. -/
inductive OwnRun (admits : Settings → Prop) (start : Workbench σ) :
    Workbench σ → List Writing → Prop where
  | start : OwnRun admits start start []
  | call (bench : Workbench σ) (written : List Writing) (source : σ) (call : Call)
      (before : OwnRun admits start bench written) (owns : Owns admits bench written call) :
      OwnRun admits start ((bench.withSource source).after call)
        (((bench.withSource source).writing? call).toList ++ written)

/-- A run on its own samples keeps to the law, within what its mutators have spent. The induction is
on the calls, and the budget only grows. -/
theorem OwnRun.obeys {start bench : Workbench σ} {written : List Writing}
    (run : OwnRun admits start bench written) (same : start.grammar = grammar)
    (wellFormed : grammar.WellFormed) (obeys : Obeys law start) :
    bench.grammar = grammar ∧ Obeys law bench ∧
      ∀ writing ∈ written, Within law (bench.budget law) writing := by
  induction run with
  | start => exact ⟨same, obeys, by simp⟩
  | call bench written source call before owns inductionHypothesis =>
    obtain ⟨same, obeys, within⟩ := inductionHypothesis
    have drawn : Obeys law (bench.withSource source) :=
      ⟨obeys.corpus, obeys.contexts, obeys.engines, obeys.bound⟩
    have complies :=
      drawn.step same wellFormed within owns ((bench.withSource source).step call)
    refine ⟨complies.grammar.trans same, complies.obeys, fun writing member => ?_⟩
    rcases List.mem_append.mp member with new | old
    · exact complies.within writing (Option.mem_toList.mp new)
    · obtain ⟨tree, sample, holds⟩ := within writing old
      exact ⟨tree, sample, law.mono complies.budget holds⟩

/-- From an empty workbench a run on its own samples keeps to every law of its grammar, for an empty
one has nothing that could break it. -/
theorem OwnRun.obeys_of_fresh (law : Law grammar admits) {patience : Nat} {journal : Journal σ}
    {capacity : Option Nat} {bench : Workbench σ} {written : List Writing}
    (run : OwnRun admits (fresh grammar patience journal capacity) bench written)
    (wellFormed : grammar.WellFormed) :
    (∀ tree ∈ bench.corpus.trees, law.holds (bench.budget law) tree) ∧
      ∀ writing ∈ written, Within law (bench.budget law) writing := by
  have nothing : Obeys law (fresh grammar patience journal capacity) := by
    refine ⟨?_, by simp [fresh], by simp [fresh], by simp [fresh]⟩
    cases capacity <;> simp [fresh, Corpus.ofCapacity, Corpus.withLimit, Corpus.unbounded]
  obtain ⟨-, obeys, within⟩ := run.obeys rfl wellFormed nothing
  exact ⟨obeys.corpus, within⟩

/-- A source of the given words, for runs that are given draw by draw. -/
def scripted (words : List UInt64) : Script where
  words := words
  generator := .splitMix ⟨0⟩

end Workbench

end Graft
