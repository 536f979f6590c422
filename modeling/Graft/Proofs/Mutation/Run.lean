import Graft.Proofs.Corpus
import Graft.Proofs.Mutation.Call
import Graft.Proofs.Mutation.Conformance
import Graft.Random.SplitMix

/-!
# Runs at a workbench

A run is any sequence of calls at a workbench, each with a random source of its
own. It starts without mutators, trees and samples, and a context is created only
from a sample that is read, if it is read at all, as a conforming tree, or from a
sample that the run has written itself.

Whatever the calls, their order and their sources, every tree that is kept
conforms, and so does every tree whose sample is written.
-/

namespace Graft

namespace Workbench

open Graft.Random

variable {σ : Type}

/-! ## What is kept and what is written -/

/-- Every tree on the workbench conforms, and every mutator works with the grammar of the
workbench and the root symbol that its settings name. -/
structure Sound (bench : Workbench σ) : Prop where
  corpus : ∀ tree ∈ bench.corpus.trees, tree.Conforms bench.grammar
  contexts : ∀ tree ∈ bench.contexts, tree.Conforms bench.grammar
  engines : ∀ mutator ∈ bench.mutators, mutator.engine.grammar = bench.grammar ∧
    bench.grammar.symbol? mutator.engine.settings.rootSymbol = some mutator.engine.root
  bound : ∀ mutator ∈ bench.mutators, ∀ tree, mutator.bound = some tree →
    tree.Conforms bench.grammar

/-- What is written is the sample of a conforming tree and is read as that tree. Its root is
the configured root symbol or the root of the bound tree. -/
def Faithful (grammar : Grammar) (writing : Writing) : Prop :=
  ∃ tree : Tree, writing.sample = tree.toSample ∧ tree.Conforms grammar ∧
    ((∃ root, grammar.symbol? writing.mutator.engine.settings.rootSymbol = some root ∧
        tree.symbol? = some root) ∨
      ∃ bound, writing.mutator.bound = some bound ∧ tree.symbol? = bound.symbol?) ∧
    (tree.Storable → grammar.readSample writing.sample = .ok tree)

/-- What a call has to keep, given what it writes. -/
structure Keeps (bench next : Workbench σ) (writing? : Option Writing) : Prop where
  grammar : next.grammar = bench.grammar
  sound : next.Sound
  faithful : ∀ writing, writing? = some writing → Faithful bench.grammar writing

variable {bench : Workbench σ}

/-- A mutator that is put in place of another one keeps the workbench sound, if it works with the
same engine and what it binds conforms. What it has counted does not matter. -/
theorem Sound.setMutator (sound : bench.Sound) {number : Nat} {old new : Mutator}
    (found : bench.mutators[number]? = some old) (engine : new.engine = old.engine)
    (binds : ∀ tree, new.bound = some tree → tree.Conforms bench.grammar) :
    Sound { bench with mutators := bench.mutators.setIfInBounds number new } where
  corpus := sound.corpus
  contexts := sound.contexts
  engines := by
    intro mutator member
    rcases Array.mem_or_eq_of_mem_setIfInBounds member with kept | rfl
    · exact sound.engines mutator kept
    · rw [engine]
      exact sound.engines old (Array.mem_of_getElem? found)
  bound := by
    intro mutator member
    rcases Array.mem_or_eq_of_mem_setIfInBounds member with kept | rfl
    · exact sound.bound mutator kept
    · exact binds

/-- The sample of a growth of the configured root symbol is faithful, since growths conform and
conforming trees are read back. -/
theorem Faithful.of_grown {grammar : Grammar} (wellFormed : grammar.WellFormed)
    {mutator : Mutator} (rooted :
      grammar.symbol? mutator.engine.settings.rootSymbol = some mutator.engine.root) {tree : Tree}
    (grown : grammar.GrowsAt mutator.engine.root 0 tree) :
    Faithful grammar { mutator, sample := tree.toSample } := by
  obtain ⟨conforms, root⟩ := grown.conforms wellFormed (wellFormed.owns_of_symbol? rooted)
  exact ⟨tree, rfl, conforms, .inl ⟨_, rooted, root⟩, conforms.readSample wellFormed⟩

/-- A request on a sound workbench is answered faithfully: the bound tree and the corpus conform,
and so does what the edits make of them. -/
theorem Sound.faithful_of_served (sound : bench.Sound) (wellFormed : bench.grammar.WellFormed)
    {mutator : Mutator} (member : mutator ∈ bench.mutators) {bound : Tree}
    (binds : mutator.bound = some bound) {answer : Mutator × Bytes}
    (served : mutator.Served (fun _ => bench.corpus) bound answer) :
    Faithful bench.grammar { mutator, sample := answer.2 } := by
  obtain ⟨grammar, rooted⟩ := sound.engines mutator member
  have boundConforms := sound.bound mutator member bound binds
  obtain ⟨-, -, tree, written, grown | reaches⟩ := served.answers binds
  · rw [written]
    exact Faithful.of_grown wellFormed rooted (grammar ▸ grown)
  · obtain ⟨conforms, root⟩ := reaches.conforms (grammar ▸ wellFormed)
      (fun _ other held => grammar ▸ sound.corpus other held) (grammar ▸ boundConforms)
    rw [grammar] at conforms
    exact ⟨tree, written, conforms, .inr ⟨bound, binds, root⟩,
      fun storable => written ▸ conforms.readSample wellFormed storable⟩

/-! ## What every call keeps -/

/-- The calls that a run may make. Trees are put in as they are only if they conform. A
context is created from a sample that is read as nothing but a conforming tree, or that the
run has written, short enough for an allocation to hold its tree. -/
def Allows (bench : Workbench σ) (written : List Writing) : Call → Prop
  | .register tree | .adopt tree => tree.Conforms bench.grammar
  | .createContext _ slot =>
    (∀ tree, bench.grammar.readSample (bench.sample slot) = .ok tree →
      tree.Conforms bench.grammar) ∨
    bench.sample slot ∈ written.map Writing.sample ∧
      4 * (bench.sample slot).length ≤ Sample.allocationLimit
  | _ => True

/-- A sample that a context may be created from is read as a conforming tree. Either that is
demanded of it, or it was written by a call before. -/
theorem conforms_of_read {written : List Writing}
    (faithful : ∀ writing ∈ written, Faithful bench.grammar writing) {number slot : Nat}
    (allowed : bench.Allows written (.createContext number slot)) {tree : Tree}
    (read : bench.grammar.readSample (bench.sample slot) = .ok tree) :
    tree.Conforms bench.grammar := by
  rcases allowed with allowed | ⟨member, short⟩
  · exact allowed tree read
  · obtain ⟨writing, present, same⟩ := List.mem_map.mp member
    obtain ⟨origin, sample, conforms, -, readBack⟩ := faithful writing present
    have storable : origin.Storable :=
      Wire.storable_of_short origin.toWire (by
        rw [← Tree.toSample, ← sample, same]
        exact short)
    have origins := readBack storable
    rw [same, read] at origins
    cases origins
    exact conforms

/-- Every call that a run may make keeps the workbench sound and writes faithfully. Each thing that
a call can do is looked at once. -/
theorem Sound.step (sound : bench.Sound) (wellFormed : bench.grammar.WellFormed)
    {written : List Writing} (faithful : ∀ writing ∈ written, Faithful bench.grammar writing)
    {call : Call} (allowed : bench.Allows written call) {next : Workbench σ}
    {writing? : Option Writing} (step : Step bench call next writing?) :
    Keeps bench next writing? := by
  -- A tree that conforms may stand in the corpus and among the contexts.
  have registers : ∀ {tree : Tree}, tree.Conforms bench.grammar →
      ∀ other ∈ (bench.corpus.register tree).trees, other.Conforms bench.grammar := by
    intro tree conforms other member
    rcases Corpus.mem_of_mem_register member with kept | rfl
    · exact sound.corpus other kept
    · exact conforms
  have adopts : ∀ {tree : Tree}, tree.Conforms bench.grammar →
      ∀ other ∈ bench.contexts.push tree, other.Conforms bench.grammar := by
    intro tree conforms other member
    rcases Array.mem_push.mp member with kept | rfl
    · exact sound.contexts other kept
    · exact conforms
  cases step with
  | idle call journal =>
    exact ⟨rfl, ⟨sound.corpus, sound.contexts, sound.engines, sound.bound⟩, nofun⟩
  | created settings engine found =>
    obtain ⟨root, rooted, rfl⟩ := Option.map_eq_some_iff.mp found
    refine ⟨rfl, ⟨sound.corpus, sound.contexts, fun mutator member => ?_,
      fun mutator member tree binds => ?_⟩, nofun⟩
    · rcases Array.mem_push.mp member with kept | rfl
      · exact sound.engines mutator kept
      · exact ⟨rfl, rooted⟩
    · rcases Array.mem_push.mp member with kept | rfl
      · exact sound.bound mutator kept tree binds
      · cases binds
  | stored slot sample =>
    exact ⟨rfl, ⟨sound.corpus, sound.contexts, sound.engines, sound.bound⟩, nofun⟩
  | registered tree =>
    exact ⟨rfl, ⟨registers allowed, sound.contexts, sound.engines, sound.bound⟩, nofun⟩
  | adopted tree =>
    exact ⟨rfl, ⟨sound.corpus, adopts allowed, sound.engines, sound.bound⟩, nofun⟩
  | generated number slot mutator journal tree found grown =>
    obtain ⟨grammar, rooted⟩ := sound.engines mutator (Array.mem_of_getElem? found)
    refine ⟨rfl, ⟨sound.corpus, sound.contexts, sound.engines, sound.bound⟩, ?_⟩
    rintro writing ⟨⟩
    exact Faithful.of_grown wellFormed rooted (grammar ▸ grown)
  | contextCreated number slot mutator tree found read =>
    obtain ⟨grammar, -⟩ := sound.engines mutator (Array.mem_of_getElem? found)
    rw [grammar] at read
    have conforms := conforms_of_read faithful allowed read
    exact ⟨rfl, ⟨registers conforms, adopts conforms, sound.engines, sound.bound⟩, nofun⟩
  | bound number context mutator tree found placed =>
    refine ⟨rfl, sound.setMutator found rfl ?_, nofun⟩
    rintro other ⟨⟩
    exact sound.contexts tree (Array.mem_of_getElem? placed)
  | mutated number slot mutator journal tree answer found binds served =>
    have member := Array.mem_of_getElem? found
    obtain ⟨engineKept, boundKept, -⟩ := served.answers binds
    have next := sound.setMutator found engineKept (by
      rw [boundKept]
      rintro other ⟨⟩
      exact sound.bound mutator member tree binds)
    refine ⟨rfl, ⟨next.corpus, next.contexts, next.engines, next.bound⟩, ?_⟩
    rintro writing ⟨⟩
    exact sound.faithful_of_served wellFormed member binds served

/-! ## Runs -/

/-- Put another random source in place. -/
def withSource (bench : Workbench σ) (source : σ) : Workbench σ :=
  { bench with journal := { bench.journal with source } }

/-- A workbench of a grammar with an empty corpus, and nothing else on it. -/
def fresh (grammar : Grammar) (patience : Nat) (journal : Journal σ) (capacity : Option Nat) :
    Workbench σ where
  grammar := grammar
  patience := patience
  journal := journal
  corpus := .ofCapacity capacity

variable [Source σ]

/-- The runs from a workbench, with the workbench that each leads to and what it has written
on the way, latest first. -/
inductive Run (start : Workbench σ) : Workbench σ → List Writing → Prop where
  | start : Run start start []
  | call (bench : Workbench σ) (written : List Writing) (source : σ) (call : Call)
      (before : Run start bench written) (allowed : bench.Allows written call) :
      Run start ((bench.withSource source).after call)
        (((bench.withSource source).writing? call).toList ++ written)

/-- A run keeps its workbench sound and writes faithfully. The induction is on the calls; what
was written before a call matters to it only where a context is created from it. -/
theorem Run.keeps {start bench : Workbench σ} {written : List Writing}
    (run : Run start bench written) (wellFormed : start.grammar.WellFormed)
    (sound : start.Sound) :
    bench.grammar = start.grammar ∧ bench.Sound ∧
      ∀ writing ∈ written, Faithful start.grammar writing := by
  induction run with
  | start => exact ⟨rfl, sound, by simp⟩
  | call bench written source call before allowed inductionHypothesis =>
    obtain ⟨grammar, sound, faithful⟩ := inductionHypothesis
    rw [← grammar] at faithful wellFormed
    have drawn : (bench.withSource source).Sound :=
      ⟨sound.corpus, sound.contexts, sound.engines, sound.bound⟩
    have keeps := drawn.step wellFormed faithful allowed ((bench.withSource source).step call)
    refine ⟨keeps.grammar.trans grammar, keeps.sound, fun writing member => ?_⟩
    rw [← grammar]
    rcases List.mem_append.mp member with new | old
    · exact keeps.faithful writing (Option.mem_toList.mp new)
    · exact faithful writing old

/-- Whatever calls a run makes, with whatever sources, every tree in the corpus and every
bound tree conforms, and every sample that is generated or mutated is that of a conforming
tree, rooted in the configured symbol or in the root of the tree that was bound. -/
theorem conforms_of_run {declarations : List Declaration} {grammar : Grammar}
    (built : Grammar.ofDeclarations declarations = .ok grammar) {patience : Nat}
    {journal : Journal σ} {capacity : Option Nat} {bench : Workbench σ} {written : List Writing}
    (run : Run (fresh grammar patience journal capacity) bench written) :
    (∀ tree ∈ bench.corpus.trees, tree.Conforms grammar) ∧
      (∀ mutator ∈ bench.mutators, ∀ tree, mutator.bound = some tree → tree.Conforms grammar) ∧
        ∀ writing ∈ written, Faithful grammar writing := by
  have nothing : (fresh grammar patience journal capacity).Sound := by
    refine ⟨?_, by simp [fresh], by simp [fresh], by simp [fresh]⟩
    cases capacity <;> simp [fresh, Corpus.ofCapacity, Corpus.withLimit, Corpus.unbounded]
  obtain ⟨kept, ⟨corpus, -, -, bound⟩, faithful⟩ :=
    run.keeps (Grammar.wellFormed_of_ofDeclarations built) nothing
  rw [show bench.grammar = grammar from kept] at corpus bound
  exact ⟨corpus, bound, faithful⟩

/-- A numeral is generated, kept, bound and mutated. Both samples that are written on the way are
faithful. -/
theorem conforms_of_run_numerals :
    ∃ (bench : Workbench SplitMix) (written : List Writing),
      Run (fresh Grammar.numerals 50 { source := ⟨0⟩ } none) bench written ∧
        bench.corpus.trees.size = 1 ∧ written.length = 2 ∧
          ∀ writing ∈ written, Faithful Grammar.numerals writing := by
  have run : ∃ (bench : Workbench SplitMix) (written : List Writing),
      Run (fresh Grammar.numerals 50 { source := ⟨0⟩ } none) bench written ∧
        bench.corpus.trees.size = 1 ∧ written.length = 2 := by
    refine ⟨_, _, .call _ _ ⟨1⟩ (.mutate 0 1) (.call _ _ ⟨1⟩ (.initRound 0 0)
      (.call _ _ ⟨1⟩ (.createContext 0 0) (.call _ _ ⟨1⟩ (.generate 0 0)
        (.call _ _ ⟨1⟩ (.create { rootSymbol := "list" }) .start trivial) trivial) ?allowed)
          trivial) trivial, ?corpus, ?written⟩
    case allowed => exact .inr ⟨by decide +kernel, by decide +kernel⟩
    case corpus => decide +kernel
    case written => decide +kernel
  obtain ⟨bench, written, run, held, counted⟩ := run
  exact ⟨bench, written, run, held, counted,
    (conforms_of_run Grammar.ofDeclarations_numerals run).2.2⟩

end Workbench

end Graft
