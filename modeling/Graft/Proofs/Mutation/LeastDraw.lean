import Graft.Proofs.Mutation.Safety
import Graft.Proofs.Random.Drawing
import Graft.Proofs.Random.Fraction
import Graft.Proofs.Weighted

/-!
# The least draw

A draw of zero asks for a share of zero in a total weight. As long as the total is finite the
share is zero, which lies below the first band that is above zero, and the first choice with
weight is made. Settings are valid if each weight is finite, whatever they add up to, and for any
decay above zero, which may lift weights on the way down a tree. A total that overflows has no
share of zero: the product is no number, nothing is above it, and the choice falls to the last
band with weight or to the last node.
-/

namespace Graft

open Graft.Double Graft.Random

/-! ## Walks over bands -/

namespace Weighted

variable {α : Type} {bands : List (α × Float)} {total : Float}

/-- The choices whose weights are above zero, in the order of their bands. -/
def offered (bands : List (α × Float)) : List α :=
  (bands.filter fun band => 0 < band.2).map Prod.fst

/-- The choice that a draw of zero makes: the first one, but the last one for a total that is
infinite. -/
def leastDrawn (total : Float) (choices : List α) : Option α :=
  if total.isInf then choices.getLast? else choices.head?

/-- There is a choice for a draw of zero if there is any. It is the first one or the last. -/
theorem exists_leastDrawn (total : Float) {choices : List α} (inhabited : choices ≠ []) :
    ∃ choice, leastDrawn total choices = some choice := by
  rw [leastDrawn]
  split
  · exact ⟨_, List.getLast?_eq_some_getLast inhabited⟩
  · exact ⟨_, List.head?_eq_some_head inhabited⟩

/-- A weight that is a number is either above zero or at most zero. One that is no number is
neither. -/
theorem not_le_zero_iff {weight : Float} (number : weight.isNaN = false) :
    ¬ weight ≤ 0 ↔ 0 < weight := by
  have zero : IsZero 0 := ⟨.positive, rfl⟩
  exact ⟨fun above => zero.lt_of_isPositive (isPositive_of_not_le_zero number above), not_le_of_lt⟩

/-- Where every weight is a number the bands that the walk does not pass over are those with weights
above zero. One that is no number would be walked into as well. -/
theorem map_fst_weighted (numbers : ∀ band ∈ bands, band.2.isNaN = false) :
    (weighted bands).map Prod.fst = offered bands := by
  refine congrArg (List.map Prod.fst) (List.filter_congr fun band member => ?_)
  exact decide_eq_decide.mpr (not_le_zero_iff (numbers band member))

/-- A draw of zero makes the choice that is told by the total and the bands with weight, or the
given one where there is no such band. A finite total makes a target of zero, and an infinite one a
target that is no number. -/
theorem band_zero_mul (positive : IsPositive total)
    (numbers : ∀ band ∈ bands, band.2.isNaN = false) (unweighted : α) :
    band (0 * total) unweighted bands = (leastDrawn total (offered bands)).getD unweighted := by
  rw [band, leastDrawn, ← map_fst_weighted numbers, List.getLast?_map, List.head?_map]
  split
  · next infinite => exact bandFrom_of_lost (not_zero_mul_lt infinite) 0 unweighted bands
  · next finite =>
    refine bandFrom_of_below (fun band member => ?_) unweighted
    obtain ⟨listed, above⟩ := List.mem_filter.mp member
    have weighted := isPositive_of_not_le_zero (numbers band listed) (of_decide_eq_true above)
    have share := isZero_zero_mul positive (Bool.eq_false_iff.mpr finite)
    exact share.lt_of_isPositive weighted.zero_add

/-- With weights as settings may have them a draw of zero makes a choice that has weight, the one
that is told by the total. The total has to be a sum of them, for which zeros make zero. -/
theorem some_band_zero_mul (bands : List (α × Float))
    (weights : Settings.areWeights (bands.map Prod.snd) total = true)
    (sum : (∀ band ∈ bands, IsZero band.2) → IsZero total) (unweighted : α) :
    some (band (0 * total) unweighted bands) = leastDrawn total (offered bands) := by
  simp only [Settings.areWeights, Bool.and_eq_true, List.all_eq_true, List.forall_mem_map,
    decide_eq_true_eq] at weights
  obtain ⟨each, above⟩ := weights
  have numbers : ∀ band ∈ bands, band.2.isNaN = false :=
    fun band member => isNaN_of_nonneg (each band member).2
  have inhabited : offered bands ≠ [] := by
    -- Without any weight the total would be zero.
    intro nothing
    have passed := List.filter_eq_nil_iff.mp (List.map_eq_nil_iff.mp nothing)
    refine absurd above (sum fun band member => ?_).not_pos
    have below : band.2 ≤ 0 := by
      by_contra weighted
      have above := (not_le_zero_iff (numbers band member)).mp weighted
      exact passed band member (decide_eq_true above)
    exact isZero_of_between below (each band member).2
  obtain ⟨choice, least⟩ := exists_leastDrawn total inhabited
  rw [band_zero_mul (isPositive_of_pos above) numbers, least, Option.getD_some]

end Weighted

/-! ## Strategies and modes -/

/-- A draw of zero picks the strategy that is told by the total of valid weights. The total adds all
four, some of which may be zero. -/
theorem Strategy.some_pick_zero {weights : PerStrategy Float}
    (valid : Settings.areWeights weights.toList weights.total = true) :
    some (pick 0 weights) = Weighted.leastDrawn weights.total (Weighted.offered weights.bands) := by
  refine Weighted.some_band_zero_mul weights.bands valid (fun zeros => ?_) .repeatSplice
  simp only [PerStrategy.bands, Strategy.all, List.map_cons, List.forall_mem_cons] at zeros
  obtain ⟨replaceNode, splice, repeatMutator, repeatSplice, -⟩ := zeros
  exact ((replaceNode.add splice).add repeatMutator).add repeatSplice

/-- A draw of zero picks the mode that is told by the total of valid weights, by the same walk as
the strategies. -/
theorem RepeatMode.some_pick_zero {weights : PerMode Float}
    (valid : Settings.areWeights weights.toList weights.total = true) :
    some (pick 0 weights) = Weighted.leastDrawn weights.total (Weighted.offered weights.bands) := by
  refine Weighted.some_band_zero_mul weights.bands valid (fun zeros => ?_) .insert
  simp only [PerMode.bands, List.forall_mem_cons] at zeros
  obtain ⟨delete, deleteThenInsert, insert, -⟩ := zeros
  exact (delete.add deleteThenInsert).add insert

/-! ## Nodes -/

/-- The fraction of a word without any of the 53 upper bits is the number zero. The 11 lower bits
have no part in it. -/
theorem Chance.unitFraction_of_eq_zero {word : UInt64} (nothing : word >>> 11 = 0) :
    unitFraction word = 0 := by
  rw [unitFraction, nothing]
  rfl

/-- A draw of zero selects the candidate that is told by the total, if the first one has weight. The
walk over candidates passes none over, so that the first has to have some. -/
theorem Candidate.select_of_zero {σ : Type} [Source σ] {first : Candidate}
    {others : List Candidate} (heavy : IsPositive first.weight)
    (positive : IsPositive (Weighted.total ((first :: others).map weight))) {source : σ}
    (nothing : (Source.next64 source).1 >>> 11 = 0) :
    select (first :: others) source =
      .ok (Weighted.leastDrawn (Weighted.total ((first :: others).map weight)) (first :: others))
        (Source.next64 source).2 := by
  have something : ¬ Weighted.Weightless weight (first :: others) := by
    rintro (empty | weightless)
    · cases empty
    · rw [positive.beq_zero] at weightless
      cases weightless
  have drawn : Chance.fraction source = .ok 0 (Source.next64 source).2 := by
    rw [Chance.fraction_eq, Chance.unitFraction_of_eq_zero nothing]
  obtain ⟨chosen, placed, selected⟩ := Weighted.select_of_drawn something drawn
  rw [select, selected, ← placed, Weighted.leastDrawn, Weighted.index]
  generalize Weighted.total ((first :: others).map weight) = total at positive ⊢
  split
  · next infinite =>
    rw [Weighted.indexFrom_of_lost (not_zero_mul_lt infinite), List.length_map,
      List.getLast?_eq_getElem?]
  · next finite =>
    have share := isZero_zero_mul positive (Bool.eq_false_iff.mpr finite)
    rw [List.map_cons, Weighted.indexFrom_of_below (share.lt_of_isPositive heavy.zero_add)]
    rfl

/-! ## Valid settings -/

/-- With valid settings a draw of zero picks the first strategy and the first mode with weight, and
selects the root of every tree that is not a text, in the arithmetic of doubles, as long as the
total it is a share of is finite. Where the total is infinite it chooses the last one. -/
theorem least_draws {settings : Settings} (valid : settings.validate = .ok ()) :
    some (Strategy.pick 0 settings.strategyWeights) =
        Weighted.leastDrawn settings.strategyWeights.total
          (Weighted.offered settings.strategyWeights.bands) ∧
      some (RepeatMode.pick 0 settings.repeatModes) =
        Weighted.leastDrawn settings.repeatModes.total
          (Weighted.offered settings.repeatModes.bands) ∧
      ∀ engine : Engine, engine.settings = settings → ∀ symbol children nodes,
        nodes = (engine.sites (.expansion symbol children)).nodes →
          nodes.head? = some ⟨[], 0, 1⟩ ∧
          ∀ {σ : Type} [Source σ] (source : σ), (Source.next64 source).1 >>> 11 = 0 →
            Candidate.select nodes source =
              .ok (Weighted.leastDrawn (Weighted.total (nodes.map Candidate.weight)) nodes)
                (Source.next64 source).2 := by
  have valid := Settings.validate_eq_ok_iff.mp valid
  refine ⟨Strategy.some_pick_zero valid.strategyWeights,
    RepeatMode.some_pick_zero valid.repeatModes, ?_⟩
  rintro engine rfl symbol children nodes collected
  have inhabited : (engine.sites (.expansion symbol children)).nodes ≠ [] := List.cons_ne_nil _ _
  have positive := Engine.isPositive_total_nodes valid.isPositive_depthDecay inhabited
  obtain ⟨others, root⟩ := Engine.nodes_eq_cons inhabited
  rw [root] at positive collected
  rw [collected]
  have one : IsPositive (⟨[], 0, 1⟩ : Candidate).weight := rfl
  exact ⟨rfl, fun source nothing => Candidate.select_of_zero one positive nothing⟩

/-- The binary numeral with the digit one. -/
def oneDigit : Tree :=
  .expansion (.repetition 0 "list" (.plain 1 "digit")) [.expansion (.plain 1 "digit") [.text [49]]]

/-- A generator whose next counter is zero, which it mixes into the word zero. -/
def beforeZero : SplitMix := ⟨0x61c8864680b583eb⟩

/-- With the default weights a draw of zero picks the replacement of a node, the deletion, and the
root of a numeral. -/
theorem least_draws_oneDigit :
    Mutator.ofTwoDigits.engine.settings.validate = .ok () ∧
    Strategy.pick 0 Mutator.ofTwoDigits.engine.settings.strategyWeights = .replaceNode ∧
    RepeatMode.pick 0 Mutator.ofTwoDigits.engine.settings.repeatModes = .delete ∧
    (Source.next64 beforeZero).1 >>> 11 = 0 ∧
    Candidate.select (Mutator.ofTwoDigits.engine.sites oneDigit).nodes beforeZero =
      .ok (some ⟨[], 0, 1⟩) (Source.next64 beforeZero).2 := by
  have valid : Mutator.ofTwoDigits.engine.settings.validate = .ok () := rfl
  obtain ⟨strategy, mode, nodes⟩ := least_draws valid
  obtain ⟨root, selected⟩ := nodes _ rfl _ _ _ rfl
  have zero : (Source.next64 beforeZero).1 >>> 11 = 0 := by decide +kernel
  refine ⟨valid, Option.some.inj strategy, Option.some.inj mode, zero, ?_⟩
  have finite : (Weighted.total ((Mutator.ofTwoDigits.engine.sites oneDigit).nodes.map
      Candidate.weight)).isInf = false := by decide +kernel
  rw [oneDigit] at finite ⊢
  rw [selected beforeZero zero, Weighted.leastDrawn, finite, ← root]
  rfl

/-- Settings with weights whose totals overflow, for trees whose weights do so as well. -/
def Settings.overflowing : Settings where
  rootSymbol := "list"
  depthDecay := Float.ofBits 1
  strategyWeights := ⟨Float.ofBits 0x7fe0000000000000, Float.ofBits 0x7fe0000000000000, 0, 0⟩
  repeatModes := ⟨Float.ofBits 0x7fe0000000000000, Float.ofBits 0x7fe0000000000000, 0⟩

/-- Valid settings let a draw of zero pass by the first strategy and the first mode with weight, and
by the root. -/
theorem overflowing_loses_draw :
    Settings.overflowing.validate = .ok () ∧
    0 < Settings.overflowing.strategyWeights.replaceNode ∧
    Strategy.pick 0 Settings.overflowing.strategyWeights = .splice ∧
    0 < Settings.overflowing.repeatModes.delete ∧
    RepeatMode.pick 0 Settings.overflowing.repeatModes = .deleteThenInsert ∧
    (match Candidate.select ({ Mutator.ofTwoDigits.engine with
        settings := .overflowing }.sites oneDigit).nodes beforeZero with
      | .ok (some candidate) _ => candidate.path == [0]
      | _ => false) = true := by
  refine ⟨rfl, ?_, ?_, ?_, ?_, ?_⟩ <;> decide +kernel

end Graft
