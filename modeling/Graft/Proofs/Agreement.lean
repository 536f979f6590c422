import Graft.Mutation.Journal

/-!
# Two trials side by side

Two trials are compared by running them from the same random source, whatever has
been noted before either of them. They agree if they draw the same words and end
alike: both answer, with values that are related, or both stop, for one cause.

The judgement is about pairs of runs, which is what it takes to say that something
does not matter to a trial: the two sides differ in it and agree all the same.
-/

namespace Graft

variable {ε σ α β γ δ : Type}

/-- From equal sources both trials answer or both stop. They reach equal sources, related
values and equal causes. -/
def Agree (related : α → β → Prop) (left : Trial ε σ α) (right : Trial ε σ β) : Prop :=
  ∀ leftBefore rightBefore : Journal σ, leftBefore.source = rightBefore.source →
    match left leftBefore, right rightBefore with
    | .ok value leftAfter, .ok other rightAfter =>
      related value other ∧ leftAfter.source = rightAfter.source
    | .error stop leftAfter, .error cause rightAfter =>
      stop = cause ∧ leftAfter.source = rightAfter.source
    | _, _ => False

namespace Agree

variable {related : α → β → Prop}

/-- Related values at hand are related answers. Nothing is drawn for them, so that the sources stay
equal. -/
theorem pure {value : α} {other : β} (holds : related value other) :
    Agree related (Pure.pure value : Trial ε σ α) (Pure.pure other : Trial ε σ β) := by
  intro leftBefore rightBefore same
  exact ⟨holds, same⟩

/-- Trials that stop at once, for one cause, agree. What they have noted up to then may differ, as
it may all along. -/
theorem throw (stop : Stop ε) :
    Agree related (MonadExcept.throw stop : Trial ε σ α)
      (MonadExcept.throw stop : Trial ε σ β) := by
  intro leftBefore rightBefore same
  exact ⟨rfl, same⟩

/-- Steps that agree are followed by what agrees on their related answers: equal sources are left by
the first, so that the rest starts from equal ones. -/
theorem bind {left : Trial ε σ α} {right : Trial ε σ β} {leftNext : α → Trial ε σ γ}
    {rightNext : β → Trial ε σ δ} {after : γ → δ → Prop} (first : Agree related left right)
    (rest : ∀ value other, related value other → Agree after (leftNext value) (rightNext other)) :
    Agree after (left >>= leftNext) (right >>= rightNext) := by
  intro leftBefore rightBefore same
  have known := first leftBefore rightBefore same
  simp only [Bind.bind, EStateM.bind]
  cases leftEnd : left leftBefore with
  | ok value leftAfter =>
    cases rightEnd : right rightBefore with
    | ok other rightAfter =>
      rw [leftEnd, rightEnd] at known
      exact rest value other known.1 leftAfter rightAfter known.2
    | error cause rightAfter =>
      rw [leftEnd, rightEnd] at known
      exact known.elim
  | error stop leftAfter =>
    cases rightEnd : right rightBefore with
    | ok other rightAfter =>
      rw [leftEnd, rightEnd] at known
      exact known.elim
    | error cause rightAfter =>
      rw [leftEnd, rightEnd] at known
      exact known

/-- Choices that are the same as far as something is read from their values agree on what is read.
The sources they leave are the same, whatever else the values tell. -/
theorem chance_of_map_eq {choice : Chance σ α} {opposite : Chance σ β} {read : α → γ}
    {also : β → γ} (same : read <$> choice = also <$> opposite) :
    Agree (fun value other => read value = also other) (Trial.chance choice : Trial ε σ α)
      (Trial.chance opposite) := by
  intro leftBefore rightBefore sources
  have ends := congrFun same rightBefore.source
  simp only [Functor.map, EStateM.map] at ends
  simp only [Trial.chance, sources]
  cases left : choice rightBefore.source <;> cases right : opposite rightBefore.source <;>
    simp_all

/-- The same choice made on both sides comes to the same value, as it is made with equal sources. -/
theorem chance (choice : Chance σ α) :
    Agree Eq (Trial.chance choice : Trial ε σ α) (Trial.chance choice) :=
  chance_of_map_eq (rfl : id <$> choice = id <$> choice)

/-- Events are noted on both sides, whichever they are. The relation does not look at the journals,
which is why two runs may agree that note different things. -/
theorem note (event other : Event) :
    Agree (fun _ _ => True) (Trial.note event : Trial ε σ Unit) (Trial.note other) := by
  intro leftBefore rightBefore same
  exact ⟨trivial, same⟩

end Agree

end Graft
