import Graft.Mutation.Journal
import Graft.Random.Chance

/-!
# Two computations in lockstep

Two computations on one state are compared by running them from every state. They
are in lockstep if they end alike and reach the same state: both answer, with
values that are related, or both stop, for one cause. Of a choice this says that
the same words are drawn; of a trial, that the same events are noted as well.

Computations that are in lockstep with equal answers are equal. The relation of
the answers is what carries the comparison through the steps in between, where the
two sides hold things that are not equal and only correspond.
-/

namespace Graft

variable {ε σ α β γ δ : Type}

/-- Two ends of one kind in one state: related answers, or stops for one cause. -/
inductive EndAlike (related : α → β → Prop) :
    EStateM.Result ε σ α → EStateM.Result ε σ β → Prop where
  | answered {value : α} {other : β} (holds : related value other) (state : σ) :
    EndAlike related (.ok value state) (.ok other state)
  | stopped (cause : ε) (state : σ) : EndAlike related (.error cause state) (.error cause state)

/-- From every state the two computations end alike. -/
def Lockstep (related : α → β → Prop) (left : EStateM ε σ α) (right : EStateM ε σ β) : Prop :=
  ∀ state, EndAlike related (left state) (right state)

namespace Lockstep

variable {related : α → β → Prop} {after : γ → δ → Prop}

/-- Related values at hand are related answers, in whatever state both sides are: to answer them
changes nothing. -/
theorem pure {value : α} {other : β} (holds : related value other) :
    Lockstep related (Pure.pure value : EStateM ε σ α) (Pure.pure other : EStateM ε σ β) :=
  fun state => .answered holds state

/-- Both sides stop at once, for one cause, and in the state they are in. What they would have
answered need not be related. -/
theorem throw (cause : ε) :
    Lockstep related (MonadExcept.throw cause : EStateM ε σ α)
      (MonadExcept.throw cause : EStateM ε σ β) :=
  fun state => .stopped cause state

/-- A computation is in lockstep with itself, since from one state it ends in one way. Steps that
the two sides share are compared by this. -/
theorem refl (program : EStateM ε σ α) : Lockstep Eq program program := by
  intro state
  cases program state with
  | ok value reached => exact .answered rfl reached
  | error cause reached => exact .stopped cause reached

/-- Steps in lockstep are followed by what is in lockstep on their related answers. The first steps
reach the same state, so that what follows starts in one state on both sides. -/
theorem bind {left : EStateM ε σ α} {right : EStateM ε σ β} {leftNext : α → EStateM ε σ γ}
    {rightNext : β → EStateM ε σ δ} (first : Lockstep related left right)
    (rest : ∀ value other, related value other →
      Lockstep after (leftNext value) (rightNext other)) :
    Lockstep after (left >>= leftNext) (right >>= rightNext) := by
  intro state
  have known := first state
  simp only [Bind.bind, EStateM.bind]
  generalize left state = leftEnd at known ⊢
  generalize right state = rightEnd at known ⊢
  cases known with
  | answered holds reached => exact rest _ _ holds reached
  | stopped cause reached => exact .stopped cause reached

/-- The same step on both sides is followed by what is in lockstep on each of its answers. Here the
answers are equal, so that what follows need only be compared for one at a time. -/
theorem bind_same (step : EStateM ε σ α) {leftNext : α → EStateM ε σ γ}
    {rightNext : α → EStateM ε σ δ}
    (rest : ∀ value, Lockstep after (leftNext value) (rightNext value)) :
    Lockstep after (step >>= leftNext) (step >>= rightNext) :=
  bind (refl step) fun value other same => by
    rw [← same]
    exact rest value

/-- A step that both sides take or leave out is followed by what is in lockstep either way. If it is
left out, what both sides had in hand before has to be related already. -/
theorem optional {taken : Prop} [Decidable taken] {left : EStateM ε σ α} {right : EStateM ε σ β}
    {value : α} {other : β} {leftNext : α → EStateM ε σ γ} {rightNext : β → EStateM ε σ δ}
    (step : Lockstep related left right) (holds : related value other)
    (rest : ∀ value other, related value other →
      Lockstep after (leftNext value) (rightNext other)) :
    Lockstep after (if taken then left >>= leftNext else Pure.pure value >>= leftNext)
      (if taken then right >>= rightNext else Pure.pure other >>= rightNext) := by
  split
  · exact bind step rest
  · exact bind (pure holds) rest

/-- Choices in lockstep make trials in lockstep. The sources are the same afterwards, and as a
choice notes no events the journals are as well. -/
theorem chance {left : Chance σ α} {right : Chance σ β} (choices : Lockstep related left right) :
    Lockstep related (Trial.chance left : Trial ε σ α) (Trial.chance right) := by
  intro journal
  have known := choices journal.source
  simp only [Trial.chance]
  generalize left journal.source = leftEnd at known ⊢
  generalize right journal.source = rightEnd at known ⊢
  cases known with
  | answered holds reached => exact .answered holds _
  | stopped fault reached => exact .stopped _ _

/-- Computations in lockstep with equal answers are equal, since they end alike from every state. -/
theorem eq {left right : EStateM ε σ α} (both : Lockstep Eq left right) : left = right := by
  funext state
  have known := both state
  generalize left state = leftEnd at known ⊢
  generalize right state = rightEnd at known ⊢
  cases known with
  | answered same reached => rw [same]
  | stopped cause reached => rfl

/-- Where related answers have equal images, the computations of the images are equal. So are
compared the texts and the samples of trees that are not equal themselves. -/
theorem map_eq {left : EStateM ε σ α} {right : EStateM ε σ β} {leftImage : α → γ}
    {rightImage : β → γ} (both : Lockstep related left right)
    (images : ∀ value other, related value other → leftImage value = rightImage other) :
    leftImage <$> left = rightImage <$> right := by
  rw [map_eq_pure_bind, map_eq_pure_bind]
  exact (both.bind fun value other holds => pure (images value other holds)).eq

end Lockstep

/-- Where the computations of images are equal, an answer of the one has an answer of the other
with the same image. -/
theorem answer_of_map_eq {left : EStateM ε σ α} {right : EStateM ε σ β} {leftImage : α → γ}
    {rightImage : β → γ} (same : leftImage <$> left = rightImage <$> right) {state reached : σ}
    {value : α} (answers : left state = .ok value reached) :
    ∃ other, right state = .ok other reached ∧ leftImage value = rightImage other := by
  have here := congrFun same state
  simp only [Functor.map, EStateM.map, answers] at here
  cases ends : right state with
  | ok other otherReached =>
    simp only [ends, EStateM.Result.ok.injEq] at here
    obtain ⟨images, rfl⟩ := here
    exact ⟨other, rfl, images⟩
  | error cause otherReached =>
    simp only [ends, reduceCtorEq] at here

end Graft
