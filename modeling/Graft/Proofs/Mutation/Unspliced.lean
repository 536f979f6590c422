import Graft.Mutation.Errand
import Graft.Proofs.Settings
import Graft.Proofs.Sharing.Foregone
import Graft.Proofs.Weighted

/-!
# Mutators that do not splice

Only the splices take anything from the corpus. If they have no weight, no attempt
is made at them: a band without weight is passed over, and in settings that are
accepted there is another one to fall back on. What a mutator does is then foregone,
whatever the others put into the corpus.
-/

namespace Graft

open Graft.Random Graft.Double

/-- Whatever is drawn, no splice is picked. -/
def Settings.Unspliced (settings : Settings) : Prop :=
  ∀ fraction, Strategy.pick fraction settings.strategyWeights = .replaceNode ∨
    Strategy.pick fraction settings.strategyWeights = .repeatMutator

/-- Settings that are accepted pick no splice if neither of them has weight. Some strategy has
weight in them, so that no splice is fallen back on. -/
theorem Settings.Valid.unspliced {settings : Settings} (valid : settings.Valid)
    (splice : (settings.strategyWeights.splice == 0) = true)
    (repeatSplice : (settings.strategyWeights.repeatSplice == 0) = true) :
    settings.Unspliced := by
  intro fraction
  have fallen := Weighted.band_offers (fraction * settings.strategyWeights.total) .repeatSplice
    settings.strategyWeights.bands
  rw [← Strategy.pick] at fallen
  rcases fallen with ⟨weight, member, weighted⟩ | ⟨-, weightless⟩
  · obtain ⟨strategy, -, entry⟩ := List.mem_map.mp member
    obtain ⟨picked, rfl⟩ := Prod.mk.inj entry
    rw [← picked]
    cases strategy with
    | replaceNode => exact .inl rfl
    | repeatMutator => exact .inr rfl
    | splice => exact absurd (le_zero_of_beq splice) weighted
    | repeatSplice => exact absurd (le_zero_of_beq repeatSplice) weighted
  · -- Without any weight the total would be zero.
    have weights := valid.strategyWeights
    simp only [areWeights, Bool.and_eq_true, List.all_eq_true, decide_eq_true_eq] at weights
    obtain ⟨each, total⟩ := weights
    have zero (strategy : Strategy) : IsZero (settings.strategyWeights.get strategy) := by
      have listed : strategy ∈ Strategy.all := by cases strategy <;> decide
      have band : (strategy, settings.strategyWeights.get strategy) ∈
          settings.strategyWeights.bands := List.mem_map_of_mem listed
      have weight : settings.strategyWeights.get strategy ∈ settings.strategyWeights.toList :=
        List.mem_map_of_mem listed
      have below := weightless _ band
      have above := (each _ weight).2
      exact isZero_of_between below above
    have nothing : IsZero settings.strategyWeights.total :=
      (((zero .replaceNode).add (zero .splice)).add (zero .repeatMutator)).add (zero .repeatSplice)
    exact absurd total nothing.not_pos

namespace Mutator

variable {σ : Type} [Source σ]

/-- An attempt that is not at a splice has nothing to do with the corpus, and may be made with
any. -/
theorem attempt_of_unspliced {engine : Engine} (unspliced : engine.settings.Unspliced)
    (now meanwhile : Corpus) (request : Request) :
    (attempt engine now request : Trial MutationError σ (Request × Bool)) =
      attempt engine meanwhile request := by
  unfold attempt
  refine congrArg (Trial.chance Chance.fraction >>= ·) (funext fun fraction => ?_)
  rcases unspliced fraction with picked | picked
  · simp only [picked]
    rfl
  · simp only [picked]
    rfl

variable {holds : Shared → Prop}
  (noted : ∀ (shared : Shared) event, holds shared → holds (shared.grant (.note event)).2)

include noted

omit [Source σ] in
/-- A trial is settled. It takes no access but to note events, which is put up with. -/
theorem settled_trial {α : Type} (program : Trial MutationError σ α) :
    Errand.Settled holds (fun _ => True) (fun _ => True)
      (Surroundings.amongOthers.trial program) :=
  Errand.Settled.trial noted fun _ _ _ _ => trivial

/-- The attempts of a request are settled. The induction is on those that are left, and what a look
finds has no part in the attempt that follows. -/
theorem settled_editWithin {engine : Engine} (unspliced : engine.settings.Unspliced)
    (request : Request) (attempts : Nat) :
    Errand.Settled holds (fun _ => True) (fun _ => True)
      (editWithin (σ := σ) .amongOthers engine request attempts) := by
  induction attempts generalizing request with
  | zero => exact Errand.Settled.pure trivial
  | succ attempts inductionHypothesis =>
    refine Errand.Settled.look (fun corpus other => ?_) fun corpus => ?_
    · dsimp only
      rw [attempt_of_unspliced unspliced corpus other]
    · apply Errand.Settled.bind (settled_trial noted _)
      intro outcome _
      obtain ⟨next, succeeded⟩ := outcome
      cases succeeded with
      | false => exact inductionHypothesis next
      | true =>
        apply Errand.Settled.bind (settled_trial noted _)
        intro fraction _
        dsimp only
        split
        · exact Errand.Settled.pure trivial
        · exact inductionHypothesis next

/-- A request is settled, and leaves the mutator its engine. Whatever the others put into the
corpus, it comes to the same. -/
theorem settled_mutating {mutator : Mutator} (unspliced : mutator.engine.settings.Unspliced) :
    Errand.Settled holds (fun _ => True) (fun answer => answer.1.engine = mutator.engine)
      (mutator.mutating : Errand (Stop MutationError) σ (Mutator × Bytes)) := by
  have byEdits (counted : Mutator) (same : counted.engine = mutator.engine) (bound : Tree) :
      Errand.Settled holds (fun _ => True) (fun answer => answer.1.engine = mutator.engine)
        (mutateByEditsWithin (σ := σ) .amongOthers counted bound) := by
    apply Errand.Settled.bind (settled_editWithin noted (same ▸ unspliced) _ _)
    intro edited _
    dsimp only
    split
    · exact Errand.Settled.pure same
    · exact Errand.Settled.bind (settled_trial noted _) fun _ _ => Errand.Settled.pure same
  unfold mutating mutateWithin
  cases mutator.bound with
  | none =>
    change Errand.Settled _ _ _ (Errand.trial (throw (.error MutationError.nothingBound)))
    apply Errand.Settled.trial noted
    intro _ _ _ answered
    cases answered
  | some bound =>
    apply Errand.Settled.bind (settled_trial noted _)
    intro fraction _
    dsimp only
    split
    · apply Errand.Settled.bind (settled_trial noted _)
      intro grown _
      cases grown with
      | some tree =>
        exact Errand.Settled.bind (settled_trial noted _) fun _ _ => Errand.Settled.pure rfl
      | none =>
        apply byEdits
        rfl
    · apply byEdits
      rfl

/-- To generate a sample is settled, since it is a trial and takes no look at the corpus. -/
theorem settled_generating (mutator : Mutator) :
    Errand.Settled holds (fun _ => True) (fun _ => True)
      (mutator.generating : Errand (Stop MutationError) σ Bytes) :=
  settled_trial noted _

omit [Source σ] noted in
/-- To create a context is settled. How many trees the corpus holds then is not looked at. -/
theorem settled_creatingContext
    (registers : ∀ (shared : Shared) tree, holds shared → holds (shared.grant (.register tree)).2)
    (mutator : Mutator) (sample : Bytes) :
    Errand.Settled holds (fun _ => True) (fun _ => True)
      (mutator.creatingContext sample : Errand (Stop MutationError) σ Tree) := by
  unfold creatingContext
  split
  · next tree read =>
    refine Errand.Settled.ask (fun shared => registers shared tree) fun state _ => ?_
    exact ⟨_, state, _, fun _ _ => .done, trivial, fun _ _ => trivial⟩
  · exact Errand.Settled.throw _

end Mutator

end Graft
