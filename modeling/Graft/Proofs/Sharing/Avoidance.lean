import Graft.Sharing.Process

/-!
# What a process keeps from doing

A process avoids accesses of some kind if it makes none of them, whatever replies
it gets to those that it does make. The steps of an errand are judged one by one,
and so is the errand.
-/

namespace Graft

variable {ε σ α β : Type}

/-- Whatever the replies to its accesses, the process makes none that is forbidden. -/
def Process.Avoids (forbidden : Access → Prop) : Process α → Prop
  | .done _ => True
  | .seek access next => ¬ forbidden access ∧ ∀ reply, (next reply).Avoids forbidden

/-- A process avoids what both of its parts avoid. The induction is on the first part, access by
access, and the second one is looked at for every value. -/
theorem Process.Avoids.bind {forbidden : Access → Prop} {process : Process α}
    {rest : α → Process β} (first : process.Avoids forbidden)
    (second : ∀ value, (rest value).Avoids forbidden) : (process.bind rest).Avoids forbidden := by
  induction process with
  | done value => exact second value
  | seek access next inductionHypothesis =>
    obtain ⟨allowed, further⟩ := first
    exact ⟨allowed, fun reply => inductionHypothesis reply (further reply)⟩

/-- To note events is avoided only if events are. The induction is on the events. -/
theorem Process.avoids_noteAll {forbidden : Access → Prop}
    (allowed : ∀ event, ¬ forbidden (.note event)) (events : List Event) :
    (noteAll events).Avoids forbidden := by
  induction events with
  | nil => trivial
  | cons event events inductionHypothesis =>
    exact ⟨allowed event, fun _ => inductionHypothesis⟩

/-- From every state the errand avoids what is forbidden. -/
def Errand.Avoids (forbidden : Access → Prop) (errand : Errand ε σ α) : Prop :=
  ∀ state, (errand state).Avoids forbidden

namespace Errand.Avoids

variable {forbidden : Access → Prop}

/-- A value at hand takes no access, and so avoids whatever is forbidden. -/
theorem pure (value : α) : Errand.Avoids forbidden (Pure.pure value : Errand ε σ α) :=
  fun _ => trivial

/-- An error at hand takes no access, and so avoids whatever is forbidden. -/
theorem throw (error : ε) :
    Errand.Avoids forbidden (MonadExcept.throw error : Errand ε σ α) :=
  fun _ => trivial

/-- An errand avoids what all of its steps avoid. After an error there is no further step. -/
theorem bind {errand : Errand ε σ α} {rest : α → Errand ε σ β}
    (first : Errand.Avoids forbidden errand)
    (second : ∀ value, Errand.Avoids forbidden (rest value)) :
    Errand.Avoids forbidden (errand >>= rest) := by
  intro state
  apply Process.Avoids.bind (first state)
  rintro ⟨result, reached⟩
  cases result with
  | ok value => exact second value reached
  | error error => trivial

/-- An access that is allowed may be made. Nothing follows it that could be forbidden. -/
theorem ask {access : Access} (allowed : ¬ forbidden access) :
    Errand.Avoids forbidden (Errand.ask access : Errand ε σ access.Reply) :=
  fun _ => ⟨allowed, fun _ => trivial⟩

/-- A trial makes no accesses but to note what it has noted, and it does so once it has ended. -/
theorem trial (allowed : ∀ event, ¬ forbidden (.note event)) (program : Trial ε σ α) :
    Errand.Avoids forbidden (Errand.trial program) := by
  intro source
  simp only [Errand.trial]
  cases program { source } with
  | ok value journal =>
    exact Process.Avoids.bind (Process.avoids_noteAll allowed _) fun _ => trivial
  | error stop journal =>
    exact Process.Avoids.bind (Process.avoids_noteAll allowed _) fun _ => trivial

end Errand.Avoids

end Graft
