import Graft.Proofs.Grammar.Conformance
import Graft.Proofs.Mutation.Call
import Graft.Proofs.Tree.Exchange
import Graft.Random.SplitMix

/-!
# Edits stay in one place

A strategy that applies exchanges one inner node of the tree for one of the same
symbol, with everything else kept in place; one that does not apply leaves the
tree as it is. A request therefore turns the bound tree into the tree that it
writes by as many such exchanges as it counts successes. Neither the corpus nor
the trees that can be bound change on the way.
-/

namespace Graft

/-- An inner node of the tree, no deeper than the settings let an edit reach, is exchanged for
one of the same symbol. -/
def Engine.Rewrites (engine : Engine) (tree result : Tree) : Prop :=
  ∃ path, path.length ≤ engine.settings.maxDepth ∧ Tree.ExchangedAt path tree result

/-- One tree is turned into another one by exactly so many rewrites of one node. -/
inductive Engine.RewritesIn (engine : Engine) : Nat → Tree → Tree → Prop where
  | refl (tree : Tree) : RewritesIn engine 0 tree tree
  | head {steps : Nat} {tree next result : Tree} (first : engine.Rewrites tree next)
      (rest : RewritesIn engine steps next result) : RewritesIn engine (steps + 1) tree result

variable {engine : Engine}

/-- What grows from a symbol is an inner node of the symbol's number, since no growth of a symbol is
a text. -/
theorem Grammar.GrowsAt.expands {grammar : Grammar} (wellFormed : grammar.WellFormed)
    {symbol : Symbol} {depth : Nat} {tree : Tree} (grown : grammar.GrowsAt symbol depth tree) :
    ∃ label children, tree = .expansion label children ∧ label.id = symbol.id := by
  obtain ⟨own, found, -, grows⟩ := grown
  have rooted := grows.symbol?
  cases tree with
  | text octets => cases rooted
  | expansion label children =>
    obtain rfl : label = own := Option.some.inj rooted
    exact ⟨label, children, rfl, wellFormed.id_of_getElem? found⟩

/-- What a strategy puts in place of a node is an inner node of the same symbol. Growth starts from
that symbol, and donors are looked for by it. -/
theorem Rewrite.expands (wellFormed : engine.grammar.WellFormed) {corpus : Corpus} {depth : Nat}
    {symbol : Symbol} {children : List Tree} {strategy : Strategy} {new : Tree}
    (rewrite : Rewrite engine corpus depth symbol children strategy new) :
    ∃ label grandchildren, new = .expansion label grandchildren ∧ label.id = symbol.id := by
  cases rewrite with
  | replaceNode new grown => exact grown.expands wellFormed
  | splice other path label grandchildren member found inside same =>
    exact ⟨label, grandchildren, rfl, same⟩
  | repeatMutator => exact ⟨symbol, _, rfl, rfl⟩
  | repeatSplice => exact ⟨symbol, _, rfl, rfl⟩

/-- An edit rewrites one node, the one that its strategy has chosen. -/
theorem Edits.rewrites (wellFormed : engine.grammar.WellFormed) {corpus : Corpus}
    {strategy : Strategy} {tree result : Tree} (edits : Edits engine corpus strategy tree result) :
    engine.Rewrites tree result := by
  obtain ⟨path, symbol, children, new, found, inside, rewrite, replaced⟩ := edits
  obtain ⟨label, grandchildren, rfl, same⟩ := rewrite.expands wellFormed
  exact ⟨path, inside, Tree.exchangedAt_of_replaceAt? found same replaced⟩

/-- Attempts one after the other make one rewrite for each of them that succeeds. Those that fail
leave the tree, and with it the number of rewrites. -/
theorem Follows.rewritesIn (wellFormed : engine.grammar.WellFormed) {corpus : Nat → Corpus}
    {trace : List Attempted} {tree result : Tree}
    (follows : Follows engine corpus trace tree result) :
    engine.RewritesIn (Tally.priceOf (fun _ => 1) trace) tree result := by
  induction follows with
  | done tree => exact .refl tree
  | failed strategy rest inductionHypothesis =>
    rw [Tally.priceOf_cons]
    simpa using inductionHypothesis
  | applied strategy picked moment applies rest inductionHypothesis =>
    rw [Tally.priceOf_cons]
    simpa [Nat.add_comm] using inductionHypothesis.head (applies.edits.rewrites wellFormed)

namespace Mutator

/-- A request writes a new growth of the root symbol, and counts a regeneration and no success;
or it writes what exactly as many rewrites make of the bound tree as it counts successes, and
counts no regeneration. -/
def RewritesAsCounted (mutator : Mutator) (bound : Tree) (answer : Mutator × Bytes) : Prop :=
  ∃ tree, answer.2 = tree.toSample ∧
    (answer.1.tally.regenerations = mutator.tally.regenerations + 1 ∧
        answer.1.tally.successes = mutator.tally.successes ∧
          mutator.engine.grammar.GrowsAt mutator.engine.root 0 tree ∨
      answer.1.tally.regenerations = mutator.tally.regenerations ∧
        ∃ steps, answer.1.tally.successes.total = mutator.tally.successes.total + steps ∧
          mutator.engine.RewritesIn steps bound tree)

/-- However a request is served, it rewrites as it counts. A tree that is grown afresh takes no
rewrite, and is counted apart. -/
theorem Served.rewritesAsCounted {mutator : Mutator} {corpus : Nat → Corpus} {bound : Tree}
    {answer : Mutator × Bytes} (wellFormed : mutator.engine.grammar.WellFormed)
    (served : mutator.Served corpus bound answer) : mutator.RewritesAsCounted bound answer := by
  cases served with
  | regenerated tree grown => exact ⟨tree, rfl, .inl ⟨rfl, rfl, grown⟩⟩
  | edited trace sites donors result follows granted exhausted =>
    refine ⟨result, rfl, .inr ⟨(mutator.tally.recordAll_ends trace).1, _, ?_,
      follows.rewritesIn wellFormed⟩⟩
    have counted := mutator.tally.spent_recordAll (fun _ => 1) trace
    rw [Tally.spent_one, Tally.spent_one] at counted
    exact counted

end Mutator

namespace Workbench

open Graft.Random

variable {σ : Type} [Source σ]

/-- A request leaves the corpus and the trees that can be bound as they are, also if it is not
answered. It works on a copy of the bound tree. -/
theorem after_mutate (bench : Workbench σ) (number slot : Nat) :
    (bench.after (.mutate number slot)).corpus = bench.corpus ∧
      (bench.after (.mutate number slot)).contexts = bench.contexts := by
  generalize left : bench.after (.mutate number slot) = next
  generalize writing? : bench.writing? (.mutate number slot) = written
  have step := bench.step (.mutate number slot)
  rw [left, writing?] at step
  cases step with
  | idle => exact ⟨rfl, rfl⟩
  | mutated => exact ⟨rfl, rfl⟩

end Workbench

namespace Mutator

open Graft.Random

variable {σ : Type} [Source σ]

/-- Every strategy rewrites one node or nothing. Where it applies to a tree, whatever the tree
and the corpus, an inner node within reach is exchanged for one of the same symbol and all else
stays in place; an attempt that does not succeed leaves the tree as it is. A request makes
exactly as many of these rewrites of the bound tree as it counts successes, and leaves the
corpus and the trees that can be bound as they are. -/
theorem attempt_rewrites_one_node {declarations : List Declaration} {grammar : Grammar}
    (built : Grammar.ofDeclarations declarations = .ok grammar) {engine : Engine}
    (works : engine.grammar = grammar) :
    (∀ (corpus : Corpus) (strategy : Strategy) (tree : Tree) (donors : List Candidate),
      Ends (engine.apply corpus strategy (engine.sites tree) tree donors : Chance σ Attempt)
        (fun attempt => attempt.edited.Turns tree (engine.Rewrites tree))
        (engine.Abandons tree)) ∧
    (∀ (corpus : Corpus) (request : Request),
      Ends (attempt engine corpus request : Trial MutationError σ (Request × Bool))
        (fun outcome =>
          (outcome.2 = false → outcome.1.working = request.working) ∧
            (outcome.2 = true → engine.Rewrites request.working outcome.1.working))
        (fun stop => ∃ fault, stop = .fault fault ∧ engine.Abandons request.working fault)) ∧
    (∀ (mutator : Mutator) (corpus : Nat → Corpus) (bound : Tree), mutator.engine = engine →
      mutator.bound = some bound →
        Ends (mutator.mutateAmid corpus : Trial MutationError σ (Mutator × Bytes))
          (mutator.RewritesAsCounted bound) (engine.AbandonsAmid corpus bound)) ∧
    ∀ (bench : Workbench σ) (number slot : Nat),
      (bench.after (.mutate number slot)).corpus = bench.corpus ∧
        (bench.after (.mutate number slot)).contexts = bench.contexts := by
  have wellFormed : engine.grammar.WellFormed :=
    works ▸ Grammar.wellFormed_of_ofDeclarations built
  refine ⟨?strategies, ?attempts, ?requests, Workbench.after_mutate⟩
  case strategies =>
    intro corpus strategy tree donors
    refine (Engine.apply_ends engine corpus strategy tree donors).mono ?_ fun _ abandons => abandons
    exact fun attempt turns => turns.mono fun result applies => applies.edits.rewrites wellFormed
  case attempts =>
    intro corpus request
    refine (attempt_ends engine corpus request).mono ?_ fun _ stop => stop
    rintro ⟨next, succeeded⟩ ⟨strategy, -, ⟨rfl, same⟩ | ⟨rfl, applies⟩, -, -⟩
    · exact ⟨fun _ => same, nofun⟩
    · exact ⟨nofun, fun _ => applies.edits.rewrites wellFormed⟩
  case requests =>
    rintro mutator corpus bound rfl binds
    exact (mutateAmid_serves mutator corpus binds).mono
      (fun _ served => served.rewritesAsCounted wellFormed) fun _ abandons => abandons

/-- A mutator of binary numerals with the one of one bound to it. It never grows a new tree. -/
def ofOne : Mutator where
  engine :=
    { grammar := .numerals
      settings := { rootSymbol := "list", regenerateProbability := 0 }
      root := .repetition 0 "list" (.plain 1 "digit")
      patience := 50 }
  bound := some Grammar.one

/-- The numeral of one is rewritten in its nodes, once at least. -/
theorem attempt_rewrites_one_node_ofOne :
    ∃ (answer : Mutator × Bytes) (journal : Journal SplitMix) (steps : Nat) (tree : Tree),
      ofOne.mutate .unbounded { source := ⟨0⟩ } = .ok answer journal ∧
        answer.2 = tree.toSample ∧ 0 < steps ∧ ofOne.engine.RewritesIn steps Grammar.one tree := by
  have rewrites := (attempt_rewrites_one_node (σ := SplitMix) Grammar.ofDeclarations_numerals
    rfl).2.2.1 ofOne (fun _ => .unbounded) Grammar.one rfl rfl { source := ⟨0⟩ }
  have productive : (match ofOne.mutate .unbounded ({ source := ⟨0⟩ } : Journal SplitMix) with
      | .ok answer _ => answer.1.tally.regenerations == 0 &&
          decide (0 < answer.1.tally.successes.total)
      | .error _ _ => false) = true := by decide +kernel
  rw [← mutate] at rewrites
  cases answered : ofOne.mutate .unbounded ({ source := ⟨0⟩ } : Journal SplitMix) with
  | error stop journal => simp [answered] at productive
  | ok answer journal =>
    simp only [answered, Bool.and_eq_true, beq_iff_eq, decide_eq_true_eq] at productive rewrites
    obtain ⟨tree, written, ⟨regenerated, -, -⟩ | ⟨-, steps, counted, reached⟩⟩ := rewrites
    · simp [productive.1, ofOne] at regenerated
    · refine ⟨answer, journal, steps, tree, rfl, written, ?_, reached⟩
      have before : ofOne.tally.successes.total = 0 := rfl
      omega

end Mutator

end Graft
