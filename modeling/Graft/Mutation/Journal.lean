import Graft.Event
import Graft.Random.Chance

/-!
# Keeping a journal

A trial is a computation on a random source that also notes events. It can end
with a reported error or a fault; the source it has reached and the events noted
up to then remain in either case.
-/

namespace Graft

/-- A random source and the events noted so far. -/
structure Journal (σ : Type) where
  source : σ
  events : Array Event := #[]

/-- A computation on a journal that reports errors of type `ε`. -/
abbrev Trial (ε σ α : Type) := EStateM (Stop ε) (Journal σ) α

namespace Trial

variable {ε σ α : Type}

/-- Note an event. -/
def note (event : Event) : Trial ε σ Unit := fun journal =>
  .ok () { journal with events := journal.events.push event }

/-- Make random choices. They note nothing and report no errors. -/
def chance (choice : Chance σ α) : Trial ε σ α := fun journal =>
  match choice journal.source with
  | .ok value source => .ok value { journal with source }
  | .error fault source => .error (.fault fault) { journal with source }

end Trial

end Graft
