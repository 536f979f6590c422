/-!
# Weighted choice

Weights laid side by side divide an interval into bands, each as long as its
weight. A target inside the interval selects the band it falls in. The arithmetic
of the weights is a parameter: a run uses doubles, and a law about proportions
can be stated over exact numbers.

Two walks over the bands are used. `band` passes over bands without positive
weight and remembers the last one it entered, so that a target lost to rounding
still selects a positive band. `index` gives every list a place, its last place
at the latest.
-/

namespace Graft.Weighted

variable {ω : Type}

/-- The sum of the weights from left to right. -/
def total [Add ω] [OfNat ω 0] (weights : List ω) : ω :=
  weights.foldl (· + ·) 0

/-- Walk on from a cumulated weight. Bands without positive weight are passed
    over; past the last band, the choice entered last is taken. -/
def bandFrom {α : Type} [Add ω] [LT ω] [LE ω] [DecidableLT ω] [DecidableLE ω] [OfNat ω 0]
    (target cumulated : ω) (entered : α) : List (α × ω) → α
  | [] => entered
  | (choice, weight) :: bands =>
    if weight ≤ 0 then bandFrom target cumulated entered bands
    else if target < cumulated + weight then choice
    else bandFrom target (cumulated + weight) choice bands

/-- The choice whose band holds the target, or a given choice where no band has
    positive weight. -/
def band {α : Type} [Add ω] [LT ω] [LE ω] [DecidableLT ω] [DecidableLE ω] [OfNat ω 0]
    (target : ω) (unweighted : α) (bands : List (α × ω)) : α :=
  bandFrom target 0 unweighted bands

/-- Walk on from a cumulated weight. The last place takes every target that no
    earlier place has taken. -/
def indexFrom [Add ω] [LT ω] [DecidableLT ω] (target cumulated : ω) : List ω → Nat
  | [] => 0
  | [_] => 0
  | weight :: weights =>
    if target < cumulated + weight then 0
    else indexFrom target (cumulated + weight) weights + 1

/-- The place of the weight whose band holds the target. -/
def index [Add ω] [LT ω] [DecidableLT ω] [OfNat ω 0] (target : ω) (weights : List ω) : Nat :=
  indexFrom target 0 weights

/-- Choose a member of a list with the given draw of a fraction. Where nothing
    has weight, nothing is chosen and nothing is drawn. -/
def select {m : Type → Type} [Monad m] {α : Type}
    [Add ω] [Mul ω] [LT ω] [DecidableLT ω] [BEq ω] [OfNat ω 0]
    (draw : m ω) (weight : α → ω) (members : List α) : m (Option α) :=
  let weights := members.map weight
  if members.isEmpty || total weights == 0 then pure none
  else do
    let fraction ← draw
    return members[index (fraction * total weights) weights]?

end Graft.Weighted
