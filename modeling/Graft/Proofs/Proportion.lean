import Mathlib.Algebra.Order.BigOperators.Group.List
import Mathlib.Algebra.Order.Field.Basic
import Mathlib.Data.Rat.Defs
import Mathlib.Algebra.Order.Ring.Rat
import Mathlib.Order.Interval.Set.Defs
import Mathlib.Tactic.Linarith
import Graft.Mutation.Strategy
import Graft.Proofs.Weighted
import Graft.Random.Chance
import Graft.Random.SplitMix

/-!
# Shares of a weighted choice

With exact numbers for weights and draws a choice is proportional to the weights. The
weights side by side divide the total into bands, and both walks end in the band that
the target falls in. Bands do not overlap, so the draws that come to a choice are an
interval of `[0, 1)`, and its length is the share that the weight has of the total.
No target falls past the last band: what a walk would fall back on is never needed.
-/

namespace Graft.Weighted

open Graft.Random

/-! ## Bands -/

section Bands

variable {weights : List ℚ} {target : ℚ} {place : Nat}

/-- The target falls into the band of the place, which starts where the weights before it end. -/
def Falls (weights : List ℚ) (target : ℚ) (place : Nat) : Prop :=
  place < weights.length ∧ (weights.take place).sum ≤ target ∧
    target < (weights.take (place + 1)).sum

/-- The weights side by side are as long as their sum. Exact numbers may be added in any order,
which doubles may not. -/
theorem total_eq_sum (weights : List ℚ) : total weights = weights.sum :=
  List.sum_eq_foldl.symm

/-- Weights before a later place are no less together, since none of those in between is below
zero. -/
theorem sum_take_mono (nonnegative : ∀ weight ∈ weights, 0 ≤ weight) {earlier later : Nat}
    (order : earlier ≤ later) : (weights.take earlier).sum ≤ (weights.take later).sum := by
  obtain ⟨between, rfl⟩ := Nat.exists_eq_add_of_le order
  rw [List.take_add, List.sum_append]
  refine le_add_of_nonneg_right (List.sum_nonneg fun weight member => ?_)
  exact nonnegative weight (List.mem_of_mem_drop (List.mem_of_mem_take member))

/-- No weights before a place are more than all of them, also where the place is past the last. -/
theorem sum_take_le (nonnegative : ∀ weight ∈ weights, 0 ≤ weight) (place : Nat) :
    (weights.take place).sum ≤ weights.sum := by
  have further := sum_take_mono nonnegative (Nat.le_max_left place weights.length)
  rwa [List.take_of_length_le (Nat.le_max_right place weights.length)] at further

/-- A target falls into one band only. If there were two, the end of the earlier one would be at
most the start of the later one. -/
theorem Falls.unique (nonnegative : ∀ weight ∈ weights, 0 ≤ weight) {other : Nat}
    (falls : Falls weights target place) (elsewhere : Falls weights target other) :
    place = other := by
  obtain ⟨-, after, before⟩ := falls
  obtain ⟨-, otherAfter, otherBefore⟩ := elsewhere
  by_contra different
  rcases Nat.lt_or_gt_of_ne different with less | more
  · have order := sum_take_mono nonnegative (Nat.succ_le_of_lt less)
    linarith
  · have order := sum_take_mono nonnegative (Nat.succ_le_of_lt more)
    linarith

/-- A target beyond the first band falls into a band of the rest, counted from its end. -/
theorem Falls.cons {weight : ℚ} (falls : Falls weights (target - weight) place) :
    Falls (weight :: weights) target (place + 1) := by
  obtain ⟨inside, after, before⟩ := falls
  refine ⟨Nat.succ_lt_succ inside, ?_, ?_⟩
  · rw [List.take_succ_cons, List.sum_cons]
    linarith
  · rw [List.take_succ_cons, List.sum_cons]
    linarith

/-- A target within the first weight falls into the first band, which starts at zero. -/
theorem falls_zero {weight : ℚ} (positive : 0 ≤ target) (within : target < weight) :
    Falls (weight :: weights) target 0 := by
  refine ⟨Nat.succ_pos _, ?_, ?_⟩
  · simpa using positive
  · simpa using within

/-- The place that is found is the one in whose band the target falls. The induction is on the
weights, with what has been passed taken off the target. -/
theorem falls_indexFrom {cumulated : ℚ} (after : cumulated ≤ target)
    (before : target < cumulated + weights.sum) :
    Falls weights (target - cumulated) (indexFrom target cumulated weights) := by
  induction weights generalizing cumulated with
  | nil =>
    rw [List.sum_nil] at before
    linarith
  | cons weight rest inductionHypothesis =>
    rw [List.sum_cons] at before
    cases rest with
    | nil =>
      rw [List.sum_nil] at before
      exact falls_zero (by linarith) (by linarith)
    | cons next rest =>
      rw [indexFrom]
      · split
        · next within => exact falls_zero (by linarith) (by linarith)
        · next beyond =>
          refine Falls.cons ?_
          rw [sub_sub]
          exact inductionHypothesis (by linarith) (by linarith)
      · simp

end Bands

/-! ## Shares -/

/-- Each draw comes to the place in whose band it falls. The draws that come to a place are an
interval as long as the share that its weight has of all, and no draw comes to a place without
weight. -/
structure Proportional (weights : List ℚ) (chosen : ℚ → Nat) : Prop where
  falls : ∀ draw, 0 ≤ draw → draw < 1 → ∀ place,
    chosen draw = place ↔ Falls weights (draw * weights.sum) place
  share : ∀ (place : Nat) (weight : ℚ), weights[place]? = some weight →
    {draw | 0 ≤ draw ∧ draw < 1 ∧ chosen draw = place} =
      Set.Ico ((weights.take place).sum / weights.sum)
        ((weights.take place).sum / weights.sum + weight / weights.sum)
  weighted : ∀ draw, 0 ≤ draw → draw < 1 →
    ∃ weight, weights[chosen draw]? = some weight ∧ 0 < weight

section Shares

variable {weights : List ℚ} {chosen : ℚ → Nat}

/-- Where the weights up to a place end: the band at a place starts where those before it end and is
as long as its weight. -/
theorem sum_take_succ {place : Nat} {weight : ℚ} (placed : weights[place]? = some weight) :
    (weights.take (place + 1)).sum = (weights.take place).sum + weight := by
  rw [List.take_add_one, placed, Option.toList_some, List.sum_append, List.sum_singleton]

/-- A choice of the place in whose band each draw falls is proportional. The draws of a place are
then those between its bounds, divided by the sum of all weights. -/
theorem proportional_of_falls (nonnegative : ∀ weight ∈ weights, 0 ≤ weight)
    (positive : 0 < weights.sum)
    (lands : ∀ draw, 0 ≤ draw → draw < 1 → Falls weights (draw * weights.sum) (chosen draw)) :
    Proportional weights chosen := by
  have falls (draw : ℚ) (low : 0 ≤ draw) (high : draw < 1) (place : Nat) :
      chosen draw = place ↔ Falls weights (draw * weights.sum) place := by
    constructor
    · rintro rfl
      exact lands draw low high
    · exact (lands draw low high).unique nonnegative
  refine ⟨falls, ?share, ?weighted⟩
  case share =>
    intro place weight placed
    ext draw
    rw [Set.mem_ofPred_eq, Set.mem_Ico, ← add_div, ← sum_take_succ placed,
      div_le_iff₀ positive, lt_div_iff₀ positive]
    constructor
    · rintro ⟨low, high, here⟩
      obtain ⟨-, after, before⟩ := (falls draw low high place).mp here
      exact ⟨after, before⟩
    · rintro ⟨after, before⟩
      have start : 0 ≤ (weights.take place).sum :=
        List.sum_nonneg fun weight member => nonnegative weight (List.mem_of_mem_take member)
      have low : 0 ≤ draw := nonneg_of_mul_nonneg_left (start.trans after) positive
      have less : draw * weights.sum < 1 * weights.sum := by
        rw [one_mul]
        exact before.trans_le (sum_take_le nonnegative (place + 1))
      have high : draw < 1 := lt_of_mul_lt_mul_right less positive.le
      have inside : place < weights.length := (List.getElem?_eq_some_iff.mp placed).1
      exact ⟨low, high, (falls draw low high place).mpr ⟨inside, after, before⟩⟩
  case weighted =>
    intro draw low high
    obtain ⟨inside, after, before⟩ := lands draw low high
    have placed := List.getElem?_eq_getElem inside
    rw [sum_take_succ placed] at before
    exact ⟨_, placed, by linarith⟩

/-- The target of a draw lies within the weights: it is a share of their sum that is not negative
and less than the whole. -/
theorem target_within (positive : 0 < weights.sum) {draw : ℚ} (low : 0 ≤ draw) (high : draw < 1) :
    0 ≤ draw * weights.sum ∧ draw * weights.sum < weights.sum :=
  ⟨mul_nonneg low positive.le, mul_lt_of_lt_one_left positive high⟩

/-- The place that is found for a draw is chosen in proportion. The walk starts at zero, so that the
target is the place on the line. -/
theorem proportional_index (nonnegative : ∀ weight ∈ weights, 0 ≤ weight)
    (positive : 0 < weights.sum) :
    Proportional weights fun draw => index (draw * total weights) weights := by
  refine proportional_of_falls nonnegative positive fun draw low high => ?_
  obtain ⟨after, before⟩ := target_within positive low high
  have lands := falls_indexFrom after (by rwa [zero_add])
  rw [index, total_eq_sum]
  rwa [sub_zero] at lands

end Shares

/-! ## The walk over bands -/

section Walk

variable {α : Type} {bands : List (α × ℚ)} {target : ℚ}

/-- Walk on from a cumulated weight with nothing to fall back on: past the last band there is no
choice. -/
def bandFrom? (target cumulated : ℚ) : List (α × ℚ) → Option α
  | [] => none
  | (choice, weight) :: bands =>
    if weight ≤ 0 then bandFrom? target cumulated bands
    else if target < cumulated + weight then some choice
    else bandFrom? target (cumulated + weight) bands

/-- Where the walk with nothing to fall back on ends, the walk ends. What it came with does not
matter then. -/
theorem bandFrom_of_bandFrom? {cumulated : ℚ} {entered choice : α}
    (ends : bandFrom? target cumulated bands = some choice) :
    bandFrom target cumulated entered bands = choice := by
  induction bands generalizing cumulated entered with
  | nil => cases ends
  | cons band bands inductionHypothesis =>
    rw [bandFrom?] at ends
    rw [bandFrom]
    split at ends
    · next weightless =>
      rw [if_pos weightless]
      exact inductionHypothesis ends
    · next weighted =>
      rw [if_neg weighted]
      split at ends
      · next within =>
        rw [if_pos within]
        exact Option.some.inj ends
      · next beyond =>
        rw [if_neg beyond]
        exact inductionHypothesis ends

/-- A target within the weights ends the walk in the band that it falls in. Bands without weight are
passed over, and no target falls into one. -/
theorem exists_bandFrom? (nonnegative : ∀ band ∈ bands, 0 ≤ band.2) {cumulated : ℚ}
    (after : cumulated ≤ target) (before : target < cumulated + (bands.map Prod.snd).sum) :
    ∃ place choice weight, bands[place]? = some (choice, weight) ∧
      Falls (bands.map Prod.snd) (target - cumulated) place ∧
        bandFrom? target cumulated bands = some choice := by
  induction bands generalizing cumulated with
  | nil =>
    rw [List.map_nil, List.sum_nil] at before
    linarith
  | cons band bands inductionHypothesis =>
    obtain ⟨choice, weight⟩ := band
    obtain ⟨here, further⟩ := List.forall_mem_cons.mp nonnegative
    rw [List.map_cons, List.sum_cons] at before
    rw [bandFrom?]
    by_cases weightless : weight ≤ 0
    · have nothing : weight = 0 := le_antisymm weightless here
      rw [if_pos weightless]
      obtain ⟨place, other, otherWeight, placed, falls, ends⟩ :=
        inductionHypothesis further after (by linarith)
      refine ⟨place + 1, other, otherWeight, placed, .cons ?_, ends⟩
      rwa [nothing, sub_zero]
    · rw [if_neg weightless]
      by_cases within : target < cumulated + weight
      · rw [if_pos within]
        exact ⟨0, choice, weight, rfl, falls_zero (by linarith) (by linarith), rfl⟩
      · have beyond : cumulated + weight ≤ target := not_lt.mp within
        rw [if_neg within]
        obtain ⟨place, other, otherWeight, placed, falls, ends⟩ :=
          inductionHypothesis further beyond (by linarith)
        refine ⟨place + 1, other, otherWeight, placed, .cons ?_, ends⟩
        rwa [sub_sub]

end Walk

/-! ## Choices of the program -/

section Choices

/-- A draw ends the walk in the band that it falls in, as its target lies within the weights. -/
theorem exists_bandFrom?_of_draw {α : Type} {bands : List (α × ℚ)}
    (nonnegative : ∀ band ∈ bands, 0 ≤ band.2) (positive : 0 < (bands.map Prod.snd).sum) {draw : ℚ}
    (low : 0 ≤ draw) (high : draw < 1) : ∃ place choice weight,
      bands[place]? = some (choice, weight) ∧
        Falls (bands.map Prod.snd) (draw * (bands.map Prod.snd).sum) place ∧
          bandFrom? (draw * (bands.map Prod.snd).sum) 0 bands = some choice := by
  obtain ⟨after, before⟩ := target_within positive low high
  have landing := exists_bandFrom? nonnegative after (by rwa [zero_add])
  rwa [sub_zero] at landing

/-- Weights not all of which are nothing are something together, as none of the others takes away
from it. -/
theorem sum_pos_of_exists {weights : List ℚ} (nonnegative : ∀ weight ∈ weights, 0 ≤ weight)
    (something : ∃ weight ∈ weights, weight ≠ 0) : 0 < weights.sum := by
  obtain ⟨weight, member, nonzero⟩ := something
  have positive : 0 < weight := lt_of_le_of_ne (nonnegative weight member) (Ne.symm nonzero)
  exact positive.trans_le (List.single_le_sum nonnegative weight member)

/-- The walk over bands chooses in proportion to the weights that are laid side by side, and is
never in need of what it could fall back on. -/
theorem proportional_band {α : Type} [BEq α] [LawfulBEq α] {bands : List (α × ℚ)}
    {weights : List ℚ} {sum : ℚ} (laid : bands.map Prod.snd = weights) (summed : sum = weights.sum)
    (distinct : (bands.map Prod.fst).Nodup) (nonnegative : ∀ weight ∈ weights, 0 ≤ weight)
    (something : ∃ weight ∈ weights, weight ≠ 0) (unweighted : α) :
    Proportional weights (fun draw =>
        (bands.map Prod.fst).idxOf (band (draw * sum) unweighted bands)) ∧
      ∀ draw, 0 ≤ draw → draw < 1 →
        bandFrom? (draw * sum) 0 bands = some (band (draw * sum) unweighted bands) := by
  have positive := sum_pos_of_exists nonnegative something
  subst laid summed
  have bandwise := List.forall_mem_map.mp nonnegative
  constructor
  · refine proportional_of_falls nonnegative positive fun draw low high => ?_
    obtain ⟨place, choice, weight, placed, falls, ends⟩ :=
      exists_bandFrom?_of_draw bandwise positive low high
    have named : (bands.map Prod.fst)[place]? = some choice := by
      rw [List.getElem?_map, placed, Option.map_some]
    obtain ⟨inside, here⟩ := List.getElem?_eq_some_iff.mp named
    rw [band, bandFrom_of_bandFrom? ends, ← here, distinct.idxOf_getElem]
    exact falls
  · intro draw low high
    obtain ⟨place, choice, weight, placed, falls, ends⟩ :=
      exists_bandFrom?_of_draw bandwise positive low high
    rw [ends, band, bandFrom_of_bandFrom? ends]

/-- The fraction of a word as an exact number: its upper 53 bits as a multiple of two to the
minus 53. -/
def exactFraction (word : UInt64) : ℚ :=
  (word >>> 11).toNat / 2 ^ 53

/-- A fraction lies in `[0, 1)`: its 53 bits make a number below two to the 53, which it is divided
by. -/
theorem exactFraction_mem (word : UInt64) : exactFraction word ∈ Set.Ico (0 : ℚ) 1 := by
  have short : (word >>> 11).toNat < 2 ^ 53 := by
    rw [UInt64.toNat_shiftRight, Nat.shiftRight_eq_div_pow]
    exact Nat.div_lt_of_lt_mul word.toNat_lt
  rw [exactFraction, Set.mem_Ico]
  constructor
  · positivity
  · rw [div_lt_one (by positivity)]
    exact_mod_cast short

section Members

variable {α : Type} {weight : α → ℚ} {members : List α}

/-- Draw a fraction as an exact number. -/
def exactDraw {σ : Type} [Source σ] : Chance σ ℚ := do
  return exactFraction (← Chance.word)

/-- The place that a draw chooses among weights. -/
def placeOf (weights : List ℚ) (draw : ℚ) : Nat :=
  index (draw * total weights) weights

/-- There is nothing to choose exactly if there is no member or the weights are nothing
together. -/
theorem weightless_iff :
    Weightless weight members ↔ members = [] ∨ (members.map weight).sum = 0 := by
  rw [Weightless, beq_iff_eq, total_eq_sum]

end Members

/-- A weighted choice is proportional to the weights, for exact numbers. Of members nothing is
chosen, and nothing drawn, exactly where there is nothing to choose; otherwise one draw chooses.
Strategies and modes are picked in proportion from every table that has some weight, and without
what their walk could fall back on. -/
theorem choices_proportional :
    (∀ (σ : Type) [Source σ] (α : Type) (weight : α → ℚ) (members : List α),
      (∀ member ∈ members, 0 ≤ weight member) →
        (members = [] ∨ (members.map weight).sum = 0 → ∀ source : σ,
          select exactDraw weight members source = .ok none source) ∧
        (¬ (members = [] ∨ (members.map weight).sum = 0) →
          Proportional (members.map weight) (placeOf (members.map weight)) ∧
          ∀ source : σ, exactFraction (Source.next64 source).1 ∈ Set.Ico (0 : ℚ) 1 ∧
            ∃ member,
              members[placeOf (members.map weight) (exactFraction (Source.next64 source).1)]? =
                some member ∧
              select exactDraw weight members source =
                .ok (some member) (Source.next64 source).2)) ∧
    (∀ weights : PerStrategy ℚ, (∀ weight ∈ weights.toList, 0 ≤ weight) →
      (∃ weight ∈ weights.toList, weight ≠ 0) →
        Proportional weights.toList
          (fun draw => Strategy.all.idxOf (Strategy.pick draw weights)) ∧
        ∀ draw, 0 ≤ draw → draw < 1 →
          bandFrom? (draw * weights.total) 0 weights.bands = some (Strategy.pick draw weights)) ∧
    (∀ weights : PerMode ℚ, (∀ weight ∈ weights.toList, 0 ≤ weight) →
      (∃ weight ∈ weights.toList, weight ≠ 0) →
        Proportional weights.toList
          (fun draw => (weights.bands.map Prod.fst).idxOf (RepeatMode.pick draw weights)) ∧
        ∀ draw, 0 ≤ draw → draw < 1 →
          bandFrom? (draw * weights.total) 0 weights.bands =
            some (RepeatMode.pick draw weights)) := by
  refine ⟨?members, ?strategies, ?modes⟩
  case members =>
    intro σ _ α weight members nonnegative
    refine ⟨fun nothing => select_of_weightless (weightless_iff.mpr nothing),
      fun something => ⟨?_, fun source => ⟨exactFraction_mem _, ?_⟩⟩⟩
    · have weights : ∀ own ∈ members.map weight, 0 ≤ own :=
        List.forall_mem_map.mpr nonnegative
      have nonzero : (members.map weight).sum ≠ 0 := fun zero => something (.inr zero)
      exact proportional_index weights (lt_of_le_of_ne (List.sum_nonneg weights) nonzero.symm)
    · have drawn : exactDraw source =
          .ok (exactFraction (Source.next64 source).1) (Source.next64 source).2 := rfl
      exact select_of_drawn (mt weightless_iff.mp something) drawn
  case strategies =>
    intro weights nonnegative something
    have distinct : (weights.bands.map Prod.fst).Nodup := show Strategy.all.Nodup by decide
    have summed : weights.total = weights.toList.sum := by
      simp [PerStrategy.total, PerStrategy.toList, Strategy.all, PerStrategy.get, add_assoc]
    exact proportional_band rfl summed distinct nonnegative something .repeatSplice
  case modes =>
    intro weights nonnegative something
    have distinct : (weights.bands.map Prod.fst).Nodup :=
      show [RepeatMode.delete, .deleteThenInsert, .insert].Nodup by decide
    have summed : weights.total = weights.toList.sum := by
      simp [PerMode.total, PerMode.toList, add_assoc]
    exact proportional_band rfl summed distinct nonnegative something .insert

/-- Members, strategies and modes are chosen in proportion where some of each have no weight. -/
theorem choices_proportional_uneven :
    Proportional [1, 0, 2] (placeOf [1, 0, 2]) ∧
      Proportional [0, 1, 0, 3] (fun draw =>
        Strategy.all.idxOf (Strategy.pick draw (⟨0, 1, 0, 3⟩ : PerStrategy ℚ))) ∧
      bandFrom? (1 / 2 * (⟨2, 0, 3⟩ : PerMode ℚ).total) 0 (⟨2, 0, 3⟩ : PerMode ℚ).bands =
        some (RepeatMode.pick (1 / 2) (⟨2, 0, 3⟩ : PerMode ℚ)) := by
  obtain ⟨members, strategies, modes⟩ := choices_proportional
  have something : ¬ (([1, 0, 2] : List ℚ) = [] ∨ (([1, 0, 2] : List ℚ).map id).sum = 0) := by
    rintro (empty | zero)
    · cases empty
    · norm_num at zero
  refine ⟨((members SplitMix ℚ id [1, 0, 2] (by norm_num)).2 something).1, ?_, ?_⟩
  · exact (strategies ⟨0, 1, 0, 3⟩ (by decide) (by decide)).1
  · exact (modes ⟨2, 0, 3⟩ (by decide) (by decide)).2 (1 / 2) (by norm_num) (by norm_num)

end Choices

end Graft.Weighted
