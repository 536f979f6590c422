import Graft.Mutation.Journal
import Graft.Sharing.Access

/-!
# Processes

A process is what one of several does that work side by side: it comes to a value
by way of accesses to what is shared. Whatever happens between two of its accesses
happens to it alone, so nothing else need be said about how processes may be
interleaved.

An errand is a process with a state of its own, which it keeps also when it ends
with an error.
-/

namespace Graft

/-- What comes to a value by way of accesses, each depending on the replies before. -/
inductive Process (α : Type) where
  | done (value : α)
  | seek (access : Access) (next : access.Reply → Process α)

namespace Process

variable {α β : Type}

/-- One process and then another, that depends on the value of the first. -/
def bind : Process α → (α → Process β) → Process β
  | .done value, rest => rest value
  | .seek access next, rest => .seek access fun reply => (next reply).bind rest

instance : Monad Process where
  pure := .done
  bind := .bind

/-- Make an access. -/
def ask (access : Access) : Process access.Reply := .seek access .done

/-- Note events one after the other. -/
def noteAll : List Event → Process Unit
  | [] => .done ()
  | event :: events => .seek (.note event) fun _ => noteAll events

/-- What a process comes to when nobody else makes an access meanwhile. -/
def alone : Process α → Shared → α × Shared
  | .done value, shared => (value, shared)
  | .seek access next, shared =>
    let (reply, shared) := shared.grant access
    (next reply).alone shared

end Process

/-- A process with a state of its own, which reports errors of type `ε`. -/
abbrev Errand (ε σ α : Type) := ExceptT ε (StateT σ Process) α

namespace Errand

variable {ε σ α : Type}

/-- Make an access. -/
def ask (access : Access) : Errand ε σ access.Reply := fun state => do
  return (.ok (← Process.ask access), state)

/-- Make a trial on a source of one's own. The events it has noted enter the log after it,
    one by one. -/
def trial (program : Trial ε σ α) : Errand (Stop ε) σ α := fun source =>
  match program { source } with
  | .ok value journal => do
    Process.noteAll journal.events.toList
    return (.ok value, journal.source)
  | .error stop journal => do
    Process.noteAll journal.events.toList
    return (.error stop, journal.source)

end Errand

end Graft
