import Graft.Proofs.Mutation.Request
import Graft.Proofs.Settings
import Graft.Random.SplitMix

/-!
# Requests that cannot fail

A node is replaced only where there are nodes to choose from, and one is chosen
only if their weights do not add up to zero. That they never do rests on the root
of the tree, which is the first node and weighs one, and on the decay, which valid
settings keep above zero: no weight is negative, and so none takes from the sum
what the root has put in.

What else could fail about an edit is excluded where it is made. A request with a
bound tree is answered, then, unless it outlasts what can be waited for.
-/

namespace Graft

open Graft.Double

/-- A weight that is lowered stays a number not below zero. An infinite decay lowers every
weight to zero at once, so that no two infinities meet. -/
theorem Query.isNonNegative_lowered {decay weight : Float} (positive : IsPositive decay)
    (nonNegative : IsNonNegative weight) (finite : decay.isInf = true → weight.isInf = false)
    (levels : Nat) : IsNonNegative (lowered decay levels weight) := by
  induction levels generalizing weight with
  | zero => exact nonNegative
  | succ levels inductionHypothesis =>
    obtain ⟨kept, stillFinite⟩ := nonNegative.div positive finite
    exact inductionHypothesis kept stillFinite

namespace Engine

/-- The nodes to choose from, if there are any, start with the root, which weighs one. Only below it
do weights fall, or rise, with the decay. -/
theorem nodes_eq_cons {engine : Engine} {tree : Tree}
    (inhabited : (engine.sites tree).nodes ≠ []) :
    ∃ others, (engine.sites tree).nodes = ⟨[], 0, 1⟩ :: others := by
  cases tree with
  | text octets => exact absurd rfl inhabited
  | expansion symbol children => exact ⟨_, rfl⟩

/-- The weights of the nodes to choose from add up to more than zero. The root has put in
one when the others are added. -/
theorem isPositive_total_nodes {engine : Engine} {tree : Tree}
    (positive : IsPositive engine.settings.depthDecay)
    (inhabited : (engine.sites tree).nodes ≠ []) :
    IsPositive (Weighted.total ((engine.sites tree).nodes.map Candidate.weight)) := by
  obtain ⟨others, nodes⟩ := nodes_eq_cons inhabited
  have othersNonNegative : ∀ addend ∈ others.map Candidate.weight, IsNonNegative addend := by
    intro addend member
    obtain ⟨candidate, present, rfl⟩ := List.mem_map.mp member
    have collected : candidate ∈ (engine.sites tree).nodes := by
      rw [nodes]
      exact List.mem_cons_of_mem _ present
    obtain ⟨-, -, lowered, -⟩ := Query.mem_collect_iff.mp collected
    rw [lowered]
    have one : IsNonNegative 1 := rfl
    exact Query.isNonNegative_lowered positive one (fun _ => rfl) _
  have root : IsPositive ((0 : Float) + 1) := rfl
  rw [nodes, List.map_cons]
  exact root.foldl_add _ othersNonNegative

/-- With valid settings an attempt is abandoned only for want of patience or because of depths that
cannot be counted. That no node could be chosen is ruled out by the decay, which is above zero. -/
theorem Abandons.of_valid {engine : Engine} {tree : Tree} {fault : Fault}
    (abandons : engine.Abandons tree fault) (valid : engine.settings.Valid) :
    fault = .patienceExhausted ∨ fault = .depthUncountable ∧
      (Depth.greatest ≤ engine.grammar.maxDepth ∨ Depth.greatest ≤ tree.innerHeight) := by
  cases fault with
  | patienceExhausted => exact .inl rfl
  | depthUncountable => exact .inr ⟨rfl, abandons⟩
  | noSelectableNode =>
    obtain ⟨inhabited, weightless⟩ := abandons
    have weighted := isPositive_total_nodes valid.isPositive_depthDecay inhabited
    rw [weighted.beq_zero] at weightless
    cases weightless
  | _ => cases abandons

end Engine

namespace Mutator

open Graft.Random

variable {σ : Type} [Source σ]

/-- A request outlasts what can be waited for: a loop goes on longer than the limit set for
it, or a node would lie deeper than depths are counted. For that, growth must be allowed
every depth, or a tree must already reach down so far. -/
def Outlasts (mutator : Mutator) (corpus : Nat → Corpus) (bound : Tree) :
    Stop MutationError → Prop
  | .fault .patienceExhausted => True
  | .fault .depthUncountable =>
    Depth.greatest ≤ mutator.engine.grammar.maxDepth ∨
      ∃ reached, Reaches mutator.engine corpus bound reached ∧
        Depth.greatest ≤ reached.innerHeight
  | _ => False

/-- With valid settings and a bound tree, whatever it looks like, a request is answered unless
it outlasts what can be waited for. It reports no error, no node is missed, no position lies
past the end of a list, and no range to draw from is empty. As the answer keeps the engine and
the bound tree, the next request is answered as well. -/
theorem mutateAmid_answers (mutator : Mutator) (corpus : Nat → Corpus) {bound : Tree}
    (valid : mutator.engine.settings.validate = .ok ()) (binds : mutator.bound = some bound) :
    Ends (mutator.mutateAmid corpus : Trial MutationError σ (Mutator × Bytes))
      (mutator.Answers corpus bound) (mutator.Outlasts corpus bound) := by
  refine (mutateAmid_ends mutator corpus binds).mono (fun _ answers => answers) ?_
  rintro stop ⟨fault, reached, rfl, reaches, abandons⟩
  rcases abandons.of_valid (Settings.validate_eq_ok_iff.mp valid) with
    rfl | ⟨rfl, unlimited | deep⟩
  · trivial
  · exact .inl unlimited
  · exact .inr ⟨reached, reaches, deep⟩

/-- A mutator of binary numerals with one of two digits bound to it. -/
def ofTwoDigits : Mutator where
  engine :=
    { grammar := .numerals
      settings := { rootSymbol := "list" }
      root := .repetition 0 "list" (.plain 1 "digit")
      patience := 50 }
  bound := some (Grammar.numerals.tree [49, 48])

/-- A corpus of a numeral of three digits. -/
def threeDigits : Corpus := Corpus.unbounded.register (Grammar.numerals.tree [48, 49, 49])

/-- The numeral of two digits is mutated beside one of three, and from one source at least by
each strategy once. -/
theorem mutateAmid_answers_ofTwoDigits :
    Ends (ofTwoDigits.mutateAmid fun _ => threeDigits :
        Trial MutationError SplitMix (Mutator × Bytes))
      (ofTwoDigits.Answers (fun _ => threeDigits) (Grammar.numerals.tree [49, 48]))
      (ofTwoDigits.Outlasts (fun _ => threeDigits) (Grammar.numerals.tree [49, 48])) ∧
    (match ofTwoDigits.mutate threeDigits ({ source := ⟨66⟩ } : Journal SplitMix) with
      | .ok answer _ => answer.1.tally.successes == ⟨1, 1, 1, 1⟩
      | .error _ _ => false) = true := by
  have valid : ofTwoDigits.engine.settings.validate = .ok () := rfl
  constructor
  · exact mutateAmid_answers ofTwoDigits _ valid rfl
  · decide +kernel

end Mutator

end Graft
