import Graft.Proofs.Outcome
import Graft.Random.Chance
import Graft.Weighted

/-!
# What a weighted choice can come to

Either walk over the weights ends at one of the choices it was given. A member of a
list is chosen by one draw, and by none where there is nothing to choose. The walk
that passes over bands without positive weight ends at a band that has some, unless
there is no such band; this does not depend on the arithmetic of the weights, and
holds of a target that rounding has put past the last band.
-/

namespace Graft.Weighted

variable {ω : Type}

/-- The place found for a target is a place in the list. A target past all the weights is given the
last place, and this is what makes it so. -/
theorem indexFrom_lt [Add ω] [LT ω] [DecidableLT ω] (target cumulated : ω) (weights : List ω)
    (inhabited : weights ≠ []) : indexFrom target cumulated weights < weights.length := by
  induction weights generalizing cumulated with
  | nil => exact absurd rfl inhabited
  | cons weight rest inductionHypothesis =>
    cases rest with
    | nil => simp [indexFrom]
    | cons next rest =>
      rw [indexFrom]
      · split
        · simp
        · have inside := inductionHypothesis (cumulated + weight) (by simp)
          simpa using inside
      · simp

/-- A target that is below the first weight is at the first place, however many others there are. -/
theorem indexFrom_of_below [Add ω] [LT ω] [DecidableLT ω] {target cumulated weight : ω}
    (below : target < cumulated + weight) (weights : List ω) :
    indexFrom target cumulated (weight :: weights) = 0 := by
  cases weights with
  | nil => rfl
  | cons next rest => rw [indexFrom, if_pos below]; simp

/-- A target that is below nothing is at the last place. This is what becomes of a target that is no
number, which is below no sum. -/
theorem indexFrom_of_lost [Add ω] [LT ω] [DecidableLT ω] {target : ω}
    (lost : ∀ sum, ¬ target < sum) (cumulated : ω) (weights : List ω) :
    indexFrom target cumulated weights = weights.length - 1 := by
  induction weights generalizing cumulated with
  | nil => rfl
  | cons weight rest inductionHypothesis =>
    cases rest with
    | nil => rfl
    | cons next rest =>
      rw [indexFrom]
      · rw [if_neg (lost _), inductionHypothesis]
        rfl
      · simp

section Selection

variable {α : Type} [Add ω] [BEq ω] [OfNat ω 0] {weight : α → ω} {members : List α}

/-- There is nothing to choose: no member, or no weight altogether. -/
def Weightless (weight : α → ω) (members : List α) : Prop :=
  members = [] ∨ (total (members.map weight) == 0) = true

/-- The condition under which nothing is drawn is that there is nothing to choose. -/
theorem skips_iff : (members.isEmpty || total (members.map weight) == 0) = true ↔
    Weightless weight members := by
  rw [Bool.or_eq_true, List.isEmpty_iff, Weightless]

variable {σ : Type} [Mul ω] [LT ω] [DecidableLT ω] {draw : Chance σ ω}

/-- Where there is nothing to choose nothing is chosen and nothing is drawn, so that the source
stays where it is. -/
theorem select_of_weightless (nothing : Weightless weight members) (source : σ) :
    select draw weight members source = .ok none source := by
  simp only [select, skips_iff.mpr nothing, ↓reduceIte]
  rfl

/-- Where there is something to choose the draw chooses the member at the place it finds. There is a
member at it, for the weights are those of the members. -/
theorem select_of_drawn (something : ¬ Weightless weight members) {source next : σ} {fraction : ω}
    (drawn : draw source = .ok fraction next) :
    ∃ member,
      members[index (fraction * total (members.map weight)) (members.map weight)]? = some member ∧
      select draw weight members source = .ok (some member) next := by
  have taken := mt skips_iff.mp something
  have inside : index (fraction * total (members.map weight)) (members.map weight) <
      members.length := by
    rw [← List.length_map (f := weight)]
    apply indexFrom_lt
    intro empty
    exact something (.inl (List.map_eq_nil_iff.mp empty))
  refine ⟨_, List.getElem?_eq_getElem inside, ?_⟩
  rw [← List.getElem?_eq_getElem inside]
  simp only [select, taken]
  exact bind_of_ok drawn

end Selection

variable {α : Type} [LE ω] [OfNat ω 0]

/-- The choice is that of some band which has weight. -/
def Offers (bands : List (α × ω)) (choice : α) : Prop :=
  ∃ weight, (choice, weight) ∈ bands ∧ ¬ weight ≤ 0

/-- A band that is offered further on is offered, whatever comes before it. -/
theorem Offers.cons {band : α × ω} {bands : List (α × ω)} {choice : α}
    (offers : Offers bands choice) : Offers (band :: bands) choice := by
  obtain ⟨weight, member, weighted⟩ := offers
  exact ⟨weight, List.mem_cons_of_mem _ member, weighted⟩

variable [Add ω] [LT ω] [DecidableLT ω] [DecidableLE ω]

/-- The walk ends at a band which has weight, or at the choice that it came with where no band
that is left has any. -/
theorem bandFrom_offers (target cumulated : ω) (entered : α) (bands : List (α × ω)) :
    Offers bands (bandFrom target cumulated entered bands) ∨
      bandFrom target cumulated entered bands = entered ∧ ∀ band ∈ bands, band.2 ≤ 0 := by
  induction bands generalizing cumulated entered with
  | nil => exact .inr ⟨rfl, by simp⟩
  | cons band bands inductionHypothesis =>
    obtain ⟨choice, weight⟩ := band
    rw [bandFrom]
    split
    · next weightless =>
      rcases inductionHypothesis cumulated entered with offers | ⟨same, none⟩
      · exact .inl offers.cons
      · refine .inr ⟨same, fun band member => ?_⟩
        rcases List.mem_cons.mp member with rfl | later
        · exact weightless
        · exact none band later
    · next weighted =>
      left
      split
      · exact ⟨weight, List.mem_cons_self, weighted⟩
      · rcases inductionHypothesis (cumulated + weight) choice with offers | ⟨same, -⟩
        · exact offers.cons
        · rw [same]
          exact ⟨weight, List.mem_cons_self, weighted⟩

/-- The bands that have positive weight. -/
def weighted (bands : List (α × ω)) : List (α × ω) :=
  bands.filter fun band => ¬ band.2 ≤ 0

omit [LT ω] [DecidableLT ω] [Add ω] in
/-- A band without weight is not among those that have some, and the walk passes over it. -/
theorem weighted_cons_of_le {band : α × ω} (weightless : band.2 ≤ 0) (bands : List (α × ω)) :
    weighted (band :: bands) = weighted bands :=
  List.filter_cons_of_neg (by simpa using weightless)

omit [LT ω] [DecidableLT ω] [Add ω] in
/-- A band with weight is the first of those that have some. A weight that is no number counts as
one, as it is not at most zero. -/
theorem weighted_cons_of_not_le {band : α × ω} (above : ¬ band.2 ≤ 0) (bands : List (α × ω)) :
    weighted (band :: bands) = band :: weighted bands :=
  List.filter_cons_of_pos (by simpa using above)

/-- A target that is below every band with weight is in the first of them. Without such a band the
walk falls back on what it came with. -/
theorem bandFrom_of_below {target cumulated : ω} {bands : List (α × ω)}
    (below : ∀ band ∈ weighted bands, target < cumulated + band.2) (entered : α) :
    bandFrom target cumulated entered bands =
      ((weighted bands).head?.map Prod.fst).getD entered := by
  induction bands with
  | nil => rfl
  | cons band bands inductionHypothesis =>
    obtain ⟨choice, weight⟩ := band
    rw [bandFrom]
    by_cases weightless : weight ≤ 0
    · rw [weighted_cons_of_le weightless] at below ⊢
      rw [if_pos weightless]
      exact inductionHypothesis below
    · rw [weighted_cons_of_not_le weightless] at below ⊢
      rw [if_neg weightless, if_pos (below _ List.mem_cons_self)]
      rfl

/-- A target that is below nothing is taken for the last band with weight, which the walk has last
entered. -/
theorem bandFrom_of_lost {target : ω} (lost : ∀ sum, ¬ target < sum) (cumulated : ω) (entered : α)
    (bands : List (α × ω)) :
    bandFrom target cumulated entered bands =
      ((weighted bands).getLast?.map Prod.fst).getD entered := by
  induction bands generalizing cumulated entered with
  | nil => rfl
  | cons band bands inductionHypothesis =>
    obtain ⟨choice, weight⟩ := band
    rw [bandFrom]
    by_cases weightless : weight ≤ 0
    · rw [if_pos weightless, weighted_cons_of_le weightless]
      exact inductionHypothesis cumulated entered
    · rw [if_neg weightless, if_neg (lost _), weighted_cons_of_not_le weightless,
        inductionHypothesis, List.getLast?_cons]
      cases (weighted bands).getLast? <;> rfl

/-- The choice that is made has weight, or is the given one where none has any. This holds for every
target, a number or not. -/
theorem band_offers (target : ω) (unweighted : α) (bands : List (α × ω)) :
    Offers bands (band target unweighted bands) ∨
      band target unweighted bands = unweighted ∧ ∀ band ∈ bands, band.2 ≤ 0 :=
  bandFrom_offers target 0 unweighted bands

/-- A choice without weight is not made. Its bands are passed over, and where all bands are it is
not what the walk falls back on. -/
theorem band_ne {choice unweighted : α} {bands : List (α × ω)}
    (weightless : ∀ weight, (choice, weight) ∈ bands → weight ≤ 0) (other : choice ≠ unweighted)
    (target : ω) : band target unweighted bands ≠ choice := by
  intro made
  rcases band_offers target unweighted bands with ⟨weight, member, weighted⟩ | ⟨fallback, -⟩
  · rw [made] at member
    exact weighted (weightless weight member)
  · exact other (made.symm.trans fallback)

end Graft.Weighted
