import Graft.Proofs.Grammar.Derivation
import Graft.Proofs.Mutation.OwnRun

/-!
# How deep mutated trees go

A new growth keeps to the greatest depth of its grammar, and so does a node that
is grown afresh or whose elements are, since growth starts from the depth of the
node. A splice does not look at how deep its donor goes. It takes a donor that
sits no deeper in its tree than the node that it takes the place of, and what is
below the donor moves down with it, by as many levels at most as the settings let
an edit go down. Trees that are read again can be spliced again, so that depth
adds up; it does so only by successful splices, and these are counted.
-/

namespace Graft

/-- By how many levels a success of a strategy can make a tree deeper. -/
def Settings.deepens (settings : Settings) : Strategy → Nat
  | .splice | .repeatSplice => settings.maxDepth
  | .replaceNode | .repeatMutator => 0

/-- What a strategy puts in place of a node goes no deeper than trees did, but for what a splice
adds. Growth keeps to the depth of the grammar; a donor may come from a smaller depth and go down as
far as trees do. -/
theorem Draw.depthWithin {engine : Engine} {corpus : Corpus}
    (wellFormed : engine.grammar.WellFormed) {depth limit : Nat} {symbol : Symbol}
    {children : List Tree} {strategy : Strategy} {new : Tree}
    (draw : Draw engine corpus depth symbol children strategy new)
    (reached : depth ≤ engine.settings.maxDepth) (grows : engine.grammar.maxDepth ≤ limit)
    (shared : ∀ other ∈ corpus.trees, other.DepthWithin 0 limit)
    (within : (Tree.expansion symbol children).DepthWithin depth limit) :
    new.DepthWithin depth (limit + engine.settings.deepens strategy) := by
  obtain ⟨here, below⟩ := Tree.depthWithin_expansion.mp within
  cases draw with
  | replaceNode new rewrite =>
    cases rewrite with
    | replaceNode new grown => exact (grown.depthWithin wellFormed).mono grows
  | splice new rewrite =>
    cases rewrite with
    | splice other path label grandchildren member found inside same =>
      have donor := (shared other member).at? found
      exact donor.shift (by simp only [Settings.deepens]; omega)
  | repeatMutator fraction element position count staged carried does grown =>
    refine Tree.depthWithin_expansion.mpr ⟨here, fun child member => ?_⟩
    rcases mem_of_mem_withRun member with fresh | kept
    · exact ((grown child fresh).depthWithin wellFormed).mono grows
    · exact below child (mem_of_mem_withoutRun kept)
  | repeatSplice label grandchildren position count start copied other path repetition donor
      member found inside same within starts run =>
    have donorBelow := (Tree.depthWithin_expansion.mp ((shared other member).at? found)).2
    refine Tree.depthWithin_expansion.mpr ⟨by omega, fun child member => ?_⟩
    rcases mem_of_mem_withRun member with moved | kept
    · have given := donorBelow child (List.mem_of_mem_drop (List.mem_of_mem_take moved))
      exact given.shift (by simp only [Settings.deepens]; omega)
    · exact (below child (mem_of_mem_withoutRun kept)).mono (Nat.le_add_right _ _)

/-- A strategy makes a tree no deeper than trees were, but for what a splice adds. Elsewhere than at
the replaced node the tree is as deep as before. -/
theorem Applies.depthWithin {engine : Engine} {corpus : Corpus}
    (wellFormed : engine.grammar.WellFormed) {limit : Nat} {strategy : Strategy}
    {tree result : Tree} (applies : Applies engine corpus strategy tree result)
    (grows : engine.grammar.maxDepth ≤ limit)
    (shared : ∀ other ∈ corpus.trees, other.DepthWithin 0 limit)
    (within : tree.DepthWithin 0 limit) :
    result.DepthWithin 0 (limit + engine.settings.deepens strategy) := by
  obtain ⟨path, symbol, children, new, found, reached, draw, replaced⟩ := applies
  have node : (Tree.expansion symbol children).DepthWithin path.length limit := by
    simpa using within.at? found
  have newWithin := draw.depthWithin wellFormed reached grows shared node
  have wider : tree.DepthWithin 0 (limit + engine.settings.deepens strategy) :=
    within.mono (Nat.le_add_right _ _)
  exact wider.replaceAt? (by simpa using newWithin) replaced

/-- The law of depth: a tree goes no deeper than the grammar allows and the splices have added. -/
def Law.depth {grammar : Grammar} (wellFormed : grammar.WellFormed) (admits : Settings → Prop) :
    Law grammar admits where
  holds budget tree := tree.Conforms grammar ∧ tree.DepthWithin 0 (grammar.maxDepth + budget)
  price := Settings.deepens
  mono more := fun ⟨conforms, within⟩ =>
    ⟨conforms, within.mono (Nat.add_le_add_left more _)⟩
  conforms := And.left
  grown owned grown := ⟨(grown.conforms wellFormed owned).1, grown.depthWithin wellFormed⟩
  applied := by
    rintro engine corpus strategy budget tree result rfl - shared ⟨conforms, within⟩ - applies
    have conforming : ∀ other ∈ corpus.trees, other.Conforms engine.grammar :=
      fun other member => (shared other member).1
    refine ⟨(applies.edits.conforms wellFormed conforming conforms).1, ?_⟩
    rw [← Nat.add_assoc]
    exact applies.depthWithin wellFormed (Nat.le_add_right _ _)
      (fun other member => (shared other member).2) within

namespace Workbench

open Graft.Random

variable {σ : Type}

/-- The levels that the splices counted so far can have added: for each of them as many as its
mutator's settings let an edit go down. -/
def splicedLevels (bench : Workbench σ) : Nat :=
  (bench.mutators.toList.map fun mutator =>
    (mutator.tally.successes.splice + mutator.tally.successes.repeatSplice) *
      mutator.engine.settings.maxDepth).sum

/-- The budget of the law of depth is what the splices can have added. Of the counts of a mutator it
asks for those of the two splices only. -/
theorem budget_depth {grammar : Grammar} (wellFormed : grammar.WellFormed)
    (admits : Settings → Prop) (bench : Workbench σ) :
    bench.budget (.depth wellFormed admits) = bench.splicedLevels := by
  refine congrArg List.sum (List.map_congr_left fun mutator _ => ?_)
  simp only [Law.spent, Law.depth, Tally.spent, Strategy.all, List.map_cons, List.map_nil,
    List.sum_cons, List.sum_nil, PerStrategy.get, Settings.deepens, Nat.add_mul, Nat.mul_zero,
    Nat.add_zero, Nat.zero_add]

variable [Source σ]

/-- In a run on its own samples no inner node of a tree in the corpus or of a tree whose sample is
written lies deeper than the greatest depth of the grammar and the levels that splices can have
added. Until a splice succeeds there are none to add. -/
theorem depth_of_ownRun {declarations : List Declaration} {grammar : Grammar}
    (built : Grammar.ofDeclarations declarations = .ok grammar) {patience : Nat}
    {journal : Journal σ} {capacity : Option Nat} {bench : Workbench σ} {written : List Writing}
    (run : OwnRun (fun settings => settings.validate = .ok ())
      (fresh grammar patience journal capacity) bench written) :
    (∀ tree ∈ bench.corpus.trees, ∀ path symbol children,
      tree.at? path = some (.expansion symbol children) →
        path.length ≤ grammar.maxDepth + bench.splicedLevels) ∧
    (∀ writing ∈ written, ∃ tree : Tree, writing.sample = tree.toSample ∧
      ∀ path symbol children, tree.at? path = some (.expansion symbol children) →
        path.length ≤ grammar.maxDepth + bench.splicedLevels) ∧
    ((∀ mutator ∈ bench.mutators, mutator.tally.successes.splice = 0 ∧
      mutator.tally.successes.repeatSplice = 0) → bench.splicedLevels = 0) := by
  have wellFormed := Grammar.wellFormed_of_ofDeclarations built
  obtain ⟨corpus, within⟩ := run.obeys_of_fresh (.depth wellFormed _) wellFormed
  rw [budget_depth] at corpus within
  refine ⟨?corpus, ?written, ?unspliced⟩
  case corpus =>
    intro tree member path symbol children found
    simpa using (corpus tree member).2 path symbol children found
  case written =>
    intro writing member
    obtain ⟨tree, sample, -, depths⟩ := within writing member
    refine ⟨tree, sample, fun path symbol children found => ?_⟩
    simpa using depths path symbol children found
  case unspliced =>
    intro unspliced
    refine List.sum_eq_zero_iff_forall_eq_nat.mpr fun levels member => ?_
    obtain ⟨mutator, present, rfl⟩ := List.mem_map.mp member
    obtain ⟨splice, repeatSplice⟩ := unspliced mutator (Array.mem_toList_iff.mp present)
    rw [splice, repeatSplice, Nat.add_zero, Nat.zero_mul]

/-! ## A splice beyond the greatest depth -/

/-- The declarations of nested parentheses, one pair around a single octet at most. -/
def parentheses.declarations : List Declaration :=
  [.rule "root" [.literal [120]], .rule "root" [.literal [40], .symbol "root", .literal [41]],
    .maxDepth 1]

/-- Nested parentheses. -/
def parentheses : Grammar where
  symbols := [.plain 0 "root"]
  productions :=
    [.alternatives [[.literal [120]], [.literal [40], .symbol 0, .literal [41]]]]
  byName := [("root", 0)]
  maxDepth := 1
  repeatProbability := 0.75

/-- The grammar of nested parentheses is not refused. Its depth is one level, so that a single pair
is all it grows. -/
theorem ofDeclarations_parentheses :
    Grammar.ofDeclarations parentheses.declarations = .ok parentheses := rfl

/-- Settings under which a request splices once. -/
def splicing : Settings where
  regenerateProbability := 0
  maxMutationAttempts := 1
  continueProbability := 0
  strategyWeights := ⟨0, 1, 0, 0⟩

/-- So many pairs of parentheses around an octet. -/
def nested : (pairs : Nat) → Tree
  | 0 => .expansion (.plain 0 "root") [.text [120]]
  | pairs + 1 => .expansion (.plain 0 "root") [.text [40], nested pairs, .text [41]]

/-- A run on its own samples generates one pair of parentheses, keeps it and splices two. -/
theorem ownRun_parentheses :
    ∃ (bench : Workbench Script) (written : List Writing),
      OwnRun (fun settings => settings.validate = .ok ())
        (fresh parentheses 50 { source := scripted [] } none) bench written ∧
          written.map Writing.sample = [(nested 2).toSample, (nested 1).toSample] ∧
            bench.corpus.trees = #[nested 1] ∧ bench.splicedLevels = 100 := by
  refine ⟨_, _, .call _ _ (scripted [0, 0, 18446744073709551615, 0, 0]) (.mutate 0 1)
    (.call _ _ (scripted []) (.initRound 0 0) (.call _ _ (scripted []) (.createContext 0 0)
      (.call _ _ (scripted [4294967295, 0]) (.generate 0 0)
        (.call _ _ (scripted []) (.create splicing) .start rfl) trivial) ?own) trivial) trivial,
    ?samples, ?corpus, ?levels⟩
  case own => exact ⟨by decide +kernel, by decide +kernel⟩
  case samples => decide +kernel
  case corpus => decide +kernel
  case levels => decide +kernel

/-- The trees of that run lie within the depth that its one splice can have added. -/
theorem depth_of_ownRun_parentheses :
    ∃ (bench : Workbench Script) (written : List Writing),
      OwnRun (fun settings => settings.validate = .ok ())
        (fresh parentheses 50 { source := scripted [] } none) bench written ∧
      bench.splicedLevels = 100 ∧ written.length = 2 ∧
      ∀ writing ∈ written, ∃ tree : Tree, writing.sample = tree.toSample ∧
        ∀ path symbol children, tree.at? path = some (.expansion symbol children) →
          path.length ≤ 101 := by
  obtain ⟨bench, written, run, samples, -, levels⟩ := ownRun_parentheses
  have within := (depth_of_ownRun ofDeclarations_parentheses run).2.1
  rw [levels] at within
  have two : written.length = 2 := by simpa using congrArg List.length samples
  exact ⟨bench, written, run, levels, two, within⟩

/-- The tree that is spliced in that run lies deeper than its grammar grows any. -/
theorem spliced_deeper_than_parentheses :
    Grammar.ofDeclarations parentheses.declarations = .ok parentheses ∧
    ∃ (bench : Workbench Script) (written : List Writing),
      OwnRun (fun settings => settings.validate = .ok ())
        (fresh parentheses 50 { source := scripted [] } none) bench written ∧
      ∃ writing ∈ written, ∃ tree path symbol children,
        parentheses.readSample writing.sample = .ok tree ∧
          tree.at? path = some (.expansion symbol children) ∧
            parentheses.maxDepth < path.length := by
  obtain ⟨bench, written, run, samples, -, -⟩ := ownRun_parentheses
  obtain ⟨writing, others, rfl, sample, -⟩ := List.map_eq_cons_iff.mp samples
  have read : parentheses.readSample (nested 2).toSample = .ok (nested 2) :=
    (Grammar.readSample_eq_ok_iff
      (Grammar.wellFormed_of_ofDeclarations ofDeclarations_parentheses)).mpr
        ⟨rfl, by decide, by decide⟩
  rw [← sample] at read
  exact ⟨rfl, bench, _, run, writing, List.mem_cons_self, nested 2, [1, 1], _, _, read, rfl,
    by decide⟩

end Workbench

end Graft
