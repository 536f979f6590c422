import Graft.Mutation.Errand

/-!
# A floor of mutators

Any number of mutators of one corpus sit at desks and are given orders, each
whether or not the others are busy. Who makes the next access is open: a floor
moves on as it is told, and every way to tell it is one way in which the work may
be interleaved.

An order is concluded with its last access, or at once if it needs none. What a
mutator does after that it does by itself.
-/

namespace Graft

/-- What a mutator can be ordered to do. Choices are made from a source given along. -/
inductive Order (σ : Type) where
  | generate (source : σ)
  | createContext (sample : Bytes)
  | initRound (tree : Tree)
  | mutate (source : σ)

/-- What an order yields if it succeeds. -/
inductive Yield where
  | sample (sample : Bytes)
  /-- A tree that can be bound. -/
  | context (tree : Tree)
  /-- A tree is bound. -/
  | bound

open Graft.Random

/-- What a mutator does on an order, with the mutator as it is afterwards. -/
def Mutator.carryOut {σ : Type} [Source σ] (mutator : Mutator) :
    Order σ → Process (Mutator × Except (Stop MutationError) Yield)
  | .generate source => do
    let (result, _) ← mutator.generating source
    return (mutator, result.map .sample)
  | .createContext sample => do
    let (result, _) ← mutator.creatingContext sample ()
    return (mutator, result.map .context)
  | .initRound tree => return (mutator.initRound tree, .ok .bound)
  | .mutate source => do
    let (result, _) ← mutator.mutating source
    return match result with
      | .ok (mutator, sample) => (mutator, .ok (.sample sample))
      | .error stop => (mutator, .error stop)

/-- An order that is being carried out, up to the access that comes next. -/
structure Task (σ : Type) where
  order : Order σ
  access : Access
  next : access.Reply → Process (Mutator × Except (Stop MutationError) Yield)

/-- A mutator, as it was when it got its order if it is busy. -/
structure Desk (σ : Type) where
  mutator : Mutator
  task : Option (Task σ) := none

/-- An order that is concluded, with the mutator as it was when it got the order. -/
structure Concluded (σ : Type) where
  mutator : Mutator
  order : Order σ
  result : Except (Stop MutationError) Yield

/-- The tree of a context that was created. -/
def Concluded.created? {σ : Type} (concluded : Concluded σ) : Option Tree :=
  match concluded.order, concluded.result with
  | .createContext _, .ok (.context tree) => some tree
  | _, _ => none

/-- Mutators at their desks, what they share, and the orders they have concluded, in the order
    of their conclusion. -/
structure Floor (σ : Type) where
  shared : Shared
  desks : List (Desk σ) := []
  concluded : List (Concluded σ) := []

/-- A way for a floor to move on. -/
inductive Move (σ : Type) where
  /-- A new mutator takes a desk of its own. -/
  | arrive (engine : Engine)
  /-- A mutator that is not busy gets an order. -/
  | begin (desk : Nat) (order : Order σ)
  /-- A mutator that is busy makes its next access. -/
  | proceed (desk : Nat)

namespace Floor

variable {σ : Type} [Source σ]

/-- A mutator goes on with an order until it needs an access or the order is concluded. -/
def goOn (floor : Floor σ) (desk : Nat) (mutator : Mutator) (order : Order σ) :
    Process (Mutator × Except (Stop MutationError) Yield) → Floor σ
  | .done (next, result) =>
    { floor with
      desks := floor.desks.set desk { mutator := next }
      concluded := floor.concluded ++ [{ mutator, order, result }] }
  | .seek access next =>
    { floor with desks := floor.desks.set desk { mutator, task := some { order, access, next } } }

/-- The floor after a move. A move for which there is no such mutator changes nothing. -/
def move (floor : Floor σ) : Move σ → Floor σ
  | .arrive engine => { floor with desks := floor.desks ++ [{ mutator := { engine } }] }
  | .begin desk order =>
    match floor.desks[desk]? with
    | some { mutator, task := none } => floor.goOn desk mutator order (mutator.carryOut order)
    | _ => floor
  | .proceed desk =>
    match floor.desks[desk]? with
    | some { mutator, task := some { order, access, next } } =>
      let (reply, shared) := floor.shared.grant access
      { floor with shared }.goOn desk mutator order (next reply)
    | _ => floor

/-- The floor after moves one after the other. -/
def after (floor : Floor σ) (moves : List (Move σ)) : Floor σ :=
  moves.foldl move floor

/-- The trees of the contexts that were created, in the order of their creation. -/
def created (floor : Floor σ) : List Tree :=
  floor.concluded.filterMap Concluded.created?

end Floor

end Graft
