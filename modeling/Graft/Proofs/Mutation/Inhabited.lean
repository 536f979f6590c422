import Graft.Proofs.Grammar.Derivation
import Graft.Proofs.Mutation.OwnRun

/-!
# Repetitions and their elements

A repetition stands for one or more of its element, and grows that many. Of the
edits only a deletion can leave it without any, for it may run to the end and puts
nothing in. Where the settings give deletions no weight, or none to the strategy that
makes them, no repetition is ever left empty: whatever else deletes also inserts, and
a copied run has an element if its donor has one.
-/

namespace Graft

/-- Every repetition in the tree has one element at least. -/
def Tree.Inhabited (tree : Tree) : Prop :=
  tree.Everywhere Inhabits

instance (tree : Tree) : Decidable tree.Inhabited :=
  inferInstanceAs (Decidable (tree.Everywhere Inhabits))

/-- Whether a repetition has elements is seen without looking below them, so that an edit further
down does not change it. -/
theorem shallow_inhabits : Tree.Shallow Inhabits := by
  intro symbol children position old new placed inner same inhabits repetition none
  exact inhabits repetition (by simpa using none)

/-- Where something is put in there is something, even if nothing is left of what was there. -/
theorem withRun_ne_nil {position : Nat} {elements children : List Tree}
    (inhabited : elements ≠ []) : withRun position elements children ≠ [] := by
  simp [withRun, inhabited]

/-- The mode that only deletes is not picked without weight, whatever is drawn. Where no mode has
any weight it is an insertion that is picked. -/
theorem RepeatMode.pick_ne_delete {ω : Type} [Add ω] [Mul ω] [LT ω] [LE ω] [DecidableLT ω]
    [DecidableLE ω] [OfNat ω 0] {weights : PerMode ω} (weightless : weights.delete ≤ 0)
    (fraction : ω) : RepeatMode.pick fraction weights ≠ .delete := by
  have other : RepeatMode.delete ≠ .insert := nofun
  refine Weighted.band_ne (fun weight member => ?_) other _
  obtain rfl : weight = weights.delete := by simpa [PerMode.bands] using member
  exact weightless

/-- The strategy that edits repetitions is not picked without weight, whatever is drawn. Where no
strategy has any weight it is a copy between repetitions that is picked. -/
theorem Strategy.pick_ne_repeatMutator {ω : Type} [Add ω] [Mul ω] [LT ω] [LE ω] [DecidableLT ω]
    [DecidableLE ω] [OfNat ω 0] {weights : PerStrategy ω} (weightless : weights.repeatMutator ≤ 0)
    (fraction : ω) : Strategy.pick fraction weights ≠ .repeatMutator := by
  have other : Strategy.repeatMutator ≠ .repeatSplice := nofun
  refine Weighted.band_ne (fun weight member => ?_) other _
  obtain rfl : weight = weights.repeatMutator := by
    simpa [PerStrategy.bands, Strategy.all, PerStrategy.get] using member
  exact weightless

/-- The settings never have elements deleted without putting others in: there is no weight on the
mode that does so, or none on the strategy that works in modes. -/
def Settings.Replenishes (settings : Settings) : Prop :=
  settings.repeatModes.delete ≤ 0 ∨ settings.strategyWeights.repeatMutator ≤ 0

/-- What a symbol of the table grows into has elements in all its repetitions. A run that grows has
one before it is asked whether it goes on. -/
theorem Grammar.Grows.inhabited {grammar : Grammar} (wellFormed : grammar.WellFormed)
    {budget : Nat} {symbol : Symbol} {tree : Tree} (owned : grammar.Owns symbol)
    (grows : grammar.Grows budget symbol tree) : tree.Inhabited :=
  grows.everywhere wellFormed (fun owned grows => grows.inhabits wellFormed owned) owned

/-- What grows at a depth from a symbol of the table has elements in all its repetitions, for the
depth only sets the budget. -/
theorem Grammar.GrowsAt.inhabited {grammar : Grammar} (wellFormed : grammar.WellFormed)
    {symbol : Symbol} {depth : Nat} {tree : Tree} (grown : grammar.GrowsAt symbol depth tree) :
    tree.Inhabited := by
  obtain ⟨own, found, -, grows⟩ := grown
  exact grows.inhabited wellFormed (wellFormed.numbered own (List.mem_of_getElem? found))

variable {engine : Engine} {corpus : Corpus}

/-- What a strategy puts in place of a node has elements in all its repetitions, if the node and
the corpus do and the settings replenish what they have deleted. The strategy is one that they let
a draw pick, for one that they do not might do anything. -/
theorem Draw.inhabited (wellFormed : engine.grammar.WellFormed)
    (replenishes : engine.settings.Replenishes) {depth : Nat} {symbol : Symbol}
    {children : List Tree} {strategy : Strategy} {new : Tree} (picked : engine.Picks strategy)
    (draw : Draw engine corpus depth symbol children strategy new)
    (shared : ∀ other ∈ corpus.trees, other.Inhabited)
    (inhabited : (Tree.expansion symbol children).Inhabited) : new.Inhabited := by
  have below := (Tree.everywhere_expansion.mp inhabited).2
  cases draw with
  | replaceNode new rewrite =>
    cases rewrite with
    | replaceNode new grown => exact grown.inhabited wellFormed
  | splice new rewrite =>
    cases rewrite with
    | splice other path label grandchildren member found inside same =>
      exact Tree.Everywhere.at? (shared other member) found
  | repeatMutator fraction element position count staged carried does grown =>
    have inserts : (RepeatMode.pick fraction engine.settings.repeatModes).inserts = true := by
      have weightless : engine.settings.repeatModes.delete ≤ 0 := by
        obtain ⟨drawn, picks⟩ := picked
        refine replenishes.resolve_right fun switched => ?_
        exact Strategy.pick_ne_repeatMutator switched drawn picks
      have kept := RepeatMode.pick_ne_delete weightless fraction
      cases picked : RepeatMode.pick fraction engine.settings.repeatModes with
      | delete => exact absurd picked kept
      | deleteThenInsert => rfl
      | insert => rfl
    refine Tree.everywhere_expansion.mpr
      ⟨fun _ => withRun_ne_nil (does.inserted inserts), fun child member => ?_⟩
    rcases mem_of_mem_withRun member with fresh | kept
    · exact (grown child fresh).inhabited wellFormed
    · exact below child (mem_of_mem_withoutRun kept)
  | repeatSplice label grandchildren position count start copied other path repetition donor
      member found inside same within starts run =>
    obtain ⟨donorInhabits, donorBelow⟩ :=
      Tree.everywhere_expansion.mp (Tree.Everywhere.at? (shared other member) found)
    have given : (grandchildren.drop start).take copied ≠ [] := by
      have nonempty : 0 < grandchildren.length := List.length_pos_iff.mpr (donorInhabits donor)
      have before : start < grandchildren.length := by omega
      have copies := run before
      apply List.ne_nil_of_length_pos
      rw [List.length_take, List.length_drop]
      omega
    refine Tree.everywhere_expansion.mpr ⟨fun _ => withRun_ne_nil given, fun child member => ?_⟩
    rcases mem_of_mem_withRun member with moved | kept
    · exact donorBelow child (List.mem_of_mem_drop (List.mem_of_mem_take moved))
    · exact below child (mem_of_mem_withoutRun kept)

/-- A strategy that is picked leaves no repetition empty, if none is and the settings replenish what
they have deleted. -/
theorem Applies.inhabited (wellFormed : engine.grammar.WellFormed)
    (replenishes : engine.settings.Replenishes)
    (conforming : ∀ other ∈ corpus.trees, other.Conforms engine.grammar)
    (shared : ∀ other ∈ corpus.trees, other.Inhabited) {strategy : Strategy} {tree result : Tree}
    (picked : engine.Picks strategy) (applies : Applies engine corpus strategy tree result)
    (conforms : tree.Conforms engine.grammar) (inhabited : tree.Inhabited) :
    result.Inhabited := by
  obtain ⟨path, symbol, children, new, found, -, draw, replaced⟩ := applies
  have newInhabited :=
    draw.inhabited wellFormed replenishes picked shared (Tree.Everywhere.at? inhabited found)
  have newSymbol :=
    (draw.rewrite.conforms wellFormed conforming (Tree.Everywhere.at? conforms found)).2
  exact Tree.Everywhere.replaceAt? shallow_inhabits inhabited newInhabited found
    (by simp [Tree.symbol?]) newSymbol replaced

/-- The law of repetitions: none is empty, for mutators that replenish what they have deleted. -/
def Law.inhabited {grammar : Grammar} (wellFormed : grammar.WellFormed) :
    Law grammar fun settings => settings.validate = .ok () ∧ settings.Replenishes where
  holds _ tree := tree.Conforms grammar ∧ tree.Inhabited
  price _ _ := 0
  mono _ holds := holds
  conforms := And.left
  grown owned grown := ⟨(grown.conforms wellFormed owned).1, grown.inhabited wellFormed⟩
  applied := by
    rintro engine corpus strategy budget tree result rfl ⟨-, replenishes⟩ shared
      ⟨conforms, inhabited⟩ picked applies
    have conforming : ∀ other ∈ corpus.trees, other.Conforms engine.grammar :=
      fun other member => (shared other member).1
    exact ⟨(applies.edits.conforms wellFormed conforming conforms).1,
      applies.inhabited wellFormed replenishes conforming
        (fun other member => (shared other member).2) picked conforms inhabited⟩

namespace Workbench

open Graft.Random

variable {σ : Type} [Source σ]

/-- Settings under which a request edits a repetition of a numeral once, in the modes that have
weight. -/
def editing (repeatModes : PerMode Float) : Settings where
  rootSymbol := "list"
  regenerateProbability := 0
  maxMutationAttempts := 1
  continueProbability := 0
  strategyWeights := ⟨0, 0, 1, 0⟩
  repeatModes := repeatModes

end Workbench

end Graft
