import Graft.Sharing.Process

/-!
# Crews

A crew is some processes side by side at what they share. Any of them may make the
next access, so a crew is run by a schedule that says whose turn it is; every
interleaving of the processes is a schedule.

What others do may also be put in between the accesses of one process as it comes,
with no word about who they are.
-/

namespace Graft

/-- What an access puts into the corpus. -/
def Access.registered : Access → List Tree
  | .register tree => [tree]
  | _ => []

/-- What is shared after accesses one after the other. -/
def Shared.grantAll (shared : Shared) (accesses : List Access) : Shared :=
  accesses.foldl (fun shared access => (shared.grant access).2) shared

variable {α : Type}

/-- What a process comes to and what it puts into the corpus on the way, while others make
    accesses of theirs before each of its own. -/
def Process.amid : Process α → (others : Nat → List Access) → Shared → α × List Tree
  | .done value, _, _ => (value, [])
  | .seek access next, others, shared =>
    let (reply, shared) := (shared.grantAll (others 0)).grant access
    let (value, trees) := (next reply).amid (fun moment => others (moment + 1)) shared
    (value, access.registered ++ trees)

/-- Processes side by side, as far as they have come. -/
structure Crew (α : Type) where
  shared : Shared
  members : List (Process α)
  /-- What they have put into the corpus, in the order in which they did. -/
  registered : List Tree := []

namespace Crew

/-- A member makes its next access. If there is none to be made, nothing changes. -/
def move (crew : Crew α) (member : Nat) : Crew α :=
  match crew.members[member]? with
  | some (.seek access next) =>
    let (reply, shared) := crew.shared.grant access
    { shared
      members := crew.members.set member (next reply)
      registered := crew.registered ++ access.registered }
  | _ => crew

/-- The crew after the turns of a schedule. -/
def after (crew : Crew α) (schedule : List Nat) : Crew α :=
  schedule.foldl move crew

/-- All members are done, and have come to these values. -/
def Ended (crew : Crew α) (values : List α) : Prop :=
  crew.members = values.map .done

end Crew

end Graft
