import Graft.Proofs.Mutation.Floor
import Graft.Proofs.Mutation.Run

/-!
# What operations leave alone

Every operation touches what it is about and nothing else. The tree that is bound
to a mutator is the one it was last given, whatever has been created, mutated or
forgotten since; a tree that can be bound stays as it is; the corpus changes only
when a context is created, and counts change only in requests. An error that is
reported changes nothing.

This is said twice. At a workbench calls come one after the other, and all that a
call may touch is at hand: slots, sources and the log. On a floor the orders of
several mutators overlap, and an order in progress is known by what it will leave
of its mutator, whatever replies it gets.
-/

namespace Graft

open Graft.Random

variable {σ : Type}

/-! ## Calls one after the other -/

namespace Workbench

/-- The tree that is bound to a mutator. -/
def boundAt (bench : Workbench σ) (number : Nat) : Option Tree :=
  bench.mutators[number]?.bind Mutator.bound

variable [Source σ] in
/-- The workbench after calls one after the other, each with a source of its own. -/
def afterAll (bench : Workbench σ) (calls : List (σ × Call)) : Workbench σ :=
  calls.foldl (fun bench call => (bench.withSource call.1).after call.2) bench

variable [Source σ] in
/-- What a call leaves alone. -/
structure Frame (bench : Workbench σ) (call : Call) : Prop where
  /-- Trees that can be bound stay what they are, in their places. -/
  contexts : bench.contexts.toList <+: (bench.after call).contexts.toList
  /-- The corpus changes only by a tree that is put in by hand, and by a context that is created
  from a sample that is read. -/
  corpus : (bench.after call).corpus = bench.corpus ∨
    ∃ tree, (bench.after call).corpus = bench.corpus.register tree ∧
      (call = .register tree ∨ ∃ number slot mutator, call = .createContext number slot ∧
        bench.mutators[number]? = some mutator ∧
          mutator.engine.grammar.readSample (bench.sample slot) = .ok tree ∧
            (bench.after call).contexts = bench.contexts.push tree)
  /-- A mutator keeps its engine. It keeps its counts unless it is asked to mutate, and its bound
  tree unless it is given another one. -/
  mutators : ∀ number mutator, bench.mutators[number]? = some mutator →
    ∃ next, (bench.after call).mutators[number]? = some next ∧ next.engine = mutator.engine ∧
      ((∀ slot, call ≠ .mutate number slot) → next.tally = mutator.tally) ∧
        ((∀ context, call ≠ .initRound number context) → next.bound = mutator.bound)
  /-- A mutator is new without counts and without a bound tree. -/
  arrivals : ∀ (number : Nat) (next : Mutator), bench.mutators[number]? = none →
    (bench.after call).mutators[number]? = some next → next.tally = {} ∧ next.bound = none
  /-- An error that is reported changes nothing, and nothing has been drawn and noted. -/
  errors : ∀ error reached, perform call bench = .error (.error error) reached → reached = bench
  /-- A sample that is refused is refused for what is wrong with it, and nothing changes. -/
  refused : ∀ number slot mutator refusal, call = .createContext number slot →
    bench.mutators[number]? = some mutator →
      mutator.engine.grammar.readSample (bench.sample slot) = .error refusal →
        perform call bench = .error (refusal.mapError .sample) bench
  /-- A request without a bound tree is refused: nothing is drawn, counted or written. -/
  unbound : ∀ number slot mutator, call = .mutate number slot →
    bench.mutators[number]? = some mutator → mutator.bound = none →
      perform call bench = .error (.error .nothingBound) bench

/-- A mutator that is put in place of another one is what is found there, and nowhere else. Numbers
are given out in order and are never given again. -/
theorem getElem?_setMutator {mutators : Array Mutator} {number : Nat} {old : Mutator}
    (found : mutators[number]? = some old) (new : Mutator) (other : Nat) :
    (mutators.setIfInBounds number new)[other]? =
      if other = number then some new else mutators[other]? := by
  obtain ⟨inside, -⟩ := Array.getElem?_eq_some_iff.mp found
  rw [Array.getElem?_setIfInBounds]
  by_cases same : other = number
  · subst same
    rw [if_pos rfl, if_pos rfl, if_pos inside]
  · rw [if_neg same, if_neg (Ne.symm same)]

/-- A call leaves the mutators alone that it is not addressed to. Of the one that it is addressed to
a request changes the counts and a round the bound tree. -/
theorem Step.mutators {bench next : Workbench σ} {call : Call} {writing? : Option Writing}
    (step : Step bench call next writing?) {number : Nat} {mutator : Mutator}
    (found : bench.mutators[number]? = some mutator) :
    ∃ after, next.mutators[number]? = some after ∧ after.engine = mutator.engine ∧
      ((∀ slot, call ≠ .mutate number slot) → after.tally = mutator.tally) ∧
        ((∀ context, call ≠ .initRound number context) → after.bound = mutator.bound) := by
  have kept : ∃ after, bench.mutators[number]? = some after ∧ after.engine = mutator.engine ∧
      ((∀ slot, call ≠ .mutate number slot) → after.tally = mutator.tally) ∧
        ((∀ context, call ≠ .initRound number context) → after.bound = mutator.bound) :=
    ⟨mutator, found, rfl, fun _ => rfl, fun _ => rfl⟩
  cases step with
  | idle | stored | registered | adopted | generated | contextCreated => exact kept
  | created settings engine rooted =>
    obtain ⟨inside, rfl⟩ := Array.getElem?_eq_some_iff.mp found
    exact ⟨_, Array.getElem?_push_lt inside, rfl, fun _ => rfl, fun _ => rfl⟩
  | bound asked context other tree there placed =>
    simp only [getElem?_setMutator there]
    split
    · next same =>
      subst same
      obtain rfl := Option.some.inj (there.symm.trans found)
      exact ⟨_, rfl, rfl, fun _ => rfl, fun unbound => absurd rfl (unbound context)⟩
    · exact kept
  | mutated asked slot other journal tree answer there binds served =>
    simp only [fill, getElem?_setMutator there]
    split
    · next same =>
      subst same
      obtain rfl := Option.some.inj (there.symm.trans found)
      obtain ⟨engine, bound, -⟩ := served.answers binds
      exact ⟨_, rfl, engine, fun unasked => absurd rfl (unasked slot),
        fun _ => bound.trans binds.symm⟩
    · exact kept

/-- Trees that can be bound stay in their places, as new ones are only added behind them. -/
theorem Step.contexts {bench next : Workbench σ} {call : Call} {writing? : Option Writing}
    (step : Step bench call next writing?) : bench.contexts.toList <+: next.contexts.toList := by
  cases step with
  | idle | created | stored | registered | generated | bound | mutated => exact List.prefix_rfl
  | adopted tree | contextCreated number slot mutator tree found read =>
    rw [Array.toList_push]
    exact List.prefix_append _ _

/-- Nothing is put into the corpus but a tree by hand and the tree of a context. Samples that are
generated or mutated do not enter it by themselves. -/
theorem Step.corpus {bench next : Workbench σ} {call : Call} {writing? : Option Writing}
    (step : Step bench call next writing?) :
    next.corpus = bench.corpus ∨ ∃ tree, next.corpus = bench.corpus.register tree ∧
      (call = .register tree ∨ ∃ number slot mutator, call = .createContext number slot ∧
        bench.mutators[number]? = some mutator ∧
          mutator.engine.grammar.readSample (bench.sample slot) = .ok tree ∧
            next.contexts = bench.contexts.push tree) := by
  cases step with
  | idle | created | stored | adopted | generated | bound | mutated => exact .inl rfl
  | registered tree => exact .inr ⟨tree, rfl, .inl rfl⟩
  | contextCreated number slot mutator tree found read =>
    exact .inr ⟨tree, rfl, .inr ⟨number, slot, mutator, rfl, found, read, rfl⟩⟩

/-- A mutator that was not there before has just been made, with nothing counted and nothing
bound. -/
theorem Step.arrivals {bench next : Workbench σ} {call : Call} {writing? : Option Writing}
    (step : Step bench call next writing?) {number : Nat} {mutator : Mutator}
    (absent : bench.mutators[number]? = none) (found : next.mutators[number]? = some mutator) :
    mutator.tally = {} ∧ mutator.bound = none := by
  cases step with
  | idle | stored | registered | adopted | generated | contextCreated =>
    cases absent.symm.trans found
  | created settings engine rooted =>
    rw [Array.getElem?_push] at found
    split at found
    · obtain rfl := Option.some.inj found
      exact ⟨rfl, rfl⟩
    · cases absent.symm.trans found
  | bound asked context other tree there placed =>
    simp only [getElem?_setMutator there] at found
    split at found
    · next same => cases absent.symm.trans (same ▸ there)
    · cases absent.symm.trans found
  | mutated asked slot other journal tree answer there binds served =>
    simp only [fill, getElem?_setMutator there] at found
    split at found
    · next same => cases absent.symm.trans (same ▸ there)
    · cases absent.symm.trans found

variable [Source σ]

/-- A request without a bound tree is refused before anything is drawn, and leaves the workbench as
it was. -/
theorem perform_mutate_unbound {bench : Workbench σ} {number slot : Nat} {mutator : Mutator}
    (found : bench.mutators[number]? = some mutator) (unbound : mutator.bound = none) :
    perform (.mutate number slot) bench = .error (.error .nothingBound) bench := by
  rw [perform_mutate, found]
  simp only [Mutator.mutate, Mutator.mutateAmid_of_unbound _ unbound]
  rfl

/-- A sample that is refused is refused before anything changes: it is read before the corpus is
touched. -/
theorem perform_createContext_refused {bench : Workbench σ} {number slot : Nat}
    {mutator : Mutator} {refusal : Stop SampleError}
    (found : bench.mutators[number]? = some mutator)
    (refused : mutator.engine.grammar.readSample (bench.sample slot) = .error refusal) :
    perform (.createContext number slot) bench = .error (refusal.mapError .sample) bench := by
  rw [perform_createContext, found]
  simp only [Mutator.createContext, refused]

/-- No call that reports an error has done anything. Only a fault can stop a call that has drawn. -/
theorem eq_of_reported {bench reached : Workbench σ} {call : Call} {error : MutationError}
    (reported : perform call bench = .error (.error error) reached) : reached = bench := by
  cases call with
  | create settings =>
    rw [perform_create] at reported
    split at reported
    · cases reported
    · cases reported
      rfl
  | store | register | adopt => cases reported
  | generate number slot =>
    rw [perform_generate] at reported
    split at reported
    · cases reported
    · next mutator found =>
      -- Growth is abandoned for faults alone.
      have known := mutator.generateSample_ends bench.journal
      cases ended : (mutator.generateSample : Trial MutationError σ Bytes) bench.journal with
      | ok sample journal =>
        rw [ended] at reported
        cases reported
      | error stop journal =>
        rw [ended] at known reported
        obtain ⟨fault, rfl, -⟩ := known
        cases reported
  | createContext number slot =>
    rw [perform_createContext] at reported
    split at reported
    · cases reported
    · split at reported <;> cases reported
      rfl
  | initRound number context =>
    rw [perform_initRound] at reported
    split at reported <;> cases reported
  | mutate number slot =>
    cases found : bench.mutators[number]? with
    | none =>
      rw [perform_mutate, found] at reported
      cases reported
    | some mutator =>
      cases binds : mutator.bound with
      | none =>
        rw [perform_mutate_unbound found binds] at reported
        cases reported
        rfl
      | some bound =>
        -- So are requests that have a bound tree.
        have known := mutator.mutateAmid_serves (fun _ => bench.corpus) binds bench.journal
        rw [← Mutator.mutate] at known
        rw [perform_mutate, found] at reported
        cases ended : (mutator.mutate bench.corpus : Trial MutationError σ (Mutator × Bytes))
            bench.journal with
        | ok answer journal =>
          simp only [ended] at reported
          cases reported
        | error stop journal =>
          simp only [ended] at known reported
          obtain ⟨fault, -, rfl, -, -⟩ := known
          cases reported

/-- Every call leaves alone what it is not about. The parts of the frame are read off the one thing
that the call does. -/
theorem frame (bench : Workbench σ) (call : Call) : bench.Frame call where
  contexts := (bench.step call).contexts
  corpus := (bench.step call).corpus
  mutators _ _ found := (bench.step call).mutators found
  arrivals _ _ absent found := (bench.step call).arrivals absent found
  errors _ _ reported := eq_of_reported reported
  refused := by
    rintro number slot mutator refusal rfl found refused
    exact perform_createContext_refused found refused
  unbound := by
    rintro number slot mutator rfl found unbound
    exact perform_mutate_unbound found unbound

/-! ### Calls since a tree was bound -/

/-- A tree that can be bound still can, and is the same, after any calls. The induction is on the
calls. -/
theorem contexts_afterAll (bench : Workbench σ) (calls : List (σ × Call)) :
    bench.contexts.toList <+: (bench.afterAll calls).contexts.toList := by
  induction calls generalizing bench with
  | nil => exact List.prefix_rfl
  | cons call calls inductionHypothesis =>
    have first : bench.contexts.toList <+:
        ((bench.withSource call.1).after call.2).contexts.toList :=
      ((bench.withSource call.1).frame call.2).contexts
    exact first.trans (inductionHypothesis _)

/-- A bound tree stays through all calls that do not give its mutator another one, requests among
them: these edit a copy. -/
theorem boundAt_afterAll {bench : Workbench σ} {number : Nat} {mutator : Mutator}
    (found : bench.mutators[number]? = some mutator) {calls : List (σ × Call)}
    (unbinding : ∀ call ∈ calls, ∀ context, call.2 ≠ .initRound number context) :
    (bench.afterAll calls).boundAt number = mutator.bound := by
  induction calls generalizing bench mutator with
  | nil => rw [afterAll, List.foldl_nil, boundAt, found, Option.bind_some]
  | cons call calls inductionHypothesis =>
    obtain ⟨next, there, -, -, bound⟩ :=
      ((bench.withSource call.1).frame call.2).mutators number mutator found
    rw [← bound (unbinding call List.mem_cons_self)]
    exact inductionHypothesis there fun other later =>
      unbinding other (List.mem_cons_of_mem _ later)

/-- A mutator that is not there yet has no bound tree until it is given one. It may come to be by
one of the calls, and is then made without. -/
theorem boundAt_afterAll_of_absent {bench : Workbench σ} {number : Nat}
    (absent : bench.mutators[number]? = none) {calls : List (σ × Call)}
    (unbinding : ∀ call ∈ calls, ∀ context, call.2 ≠ .initRound number context) :
    (bench.afterAll calls).boundAt number = none := by
  induction calls generalizing bench with
  | nil => rw [afterAll, List.foldl_nil, boundAt, absent, Option.bind_none]
  | cons call calls inductionHypothesis =>
    have later : ∀ other ∈ calls, ∀ context, other.2 ≠ .initRound number context :=
      fun other member => unbinding other (List.mem_cons_of_mem _ member)
    cases there : ((bench.withSource call.1).after call.2).mutators[number]? with
    | none => exact inductionHypothesis there later
    | some next =>
      rw [← (((bench.withSource call.1).frame call.2).arrivals number next absent there).2]
      exact boundAt_afterAll there later

/-- The tree that was given to a mutator last is bound to it, whatever has been called since. It
is still the tree of the context that it was given from. -/
theorem boundAt_of_last {bench : Workbench σ} {number context : Nat} {mutator : Mutator}
    {tree : Tree} (found : bench.mutators[number]? = some mutator)
    (placed : bench.contexts[context]? = some tree) (source : σ) {since : List (σ × Call)}
    (unbinding : ∀ call ∈ since, ∀ other, call.2 ≠ .initRound number other) :
    let now := bench.afterAll ((source, .initRound number context) :: since)
    now.boundAt number = some tree ∧ now.contexts[context]? = some tree := by
  intro now
  have given : (bench.withSource source).after (.initRound number context) =
      { bench.withSource source with
        mutators := bench.mutators.setIfInBounds number (mutator.initRound tree) } := by
    simp only [after, perform_initRound, withSource, found, placed]
  have there : ((bench.withSource source).after (.initRound number context)).mutators[number]? =
      some (mutator.initRound tree) := by
    simp only [given, getElem?_setMutator found, if_pos]
  constructor
  · exact boundAt_afterAll there unbinding
  · have kept := contexts_afterAll bench ((source, .initRound number context) :: since)
    rw [← Array.getElem?_toList] at placed ⊢
    obtain ⟨inside, rfl⟩ := List.getElem?_eq_some_iff.mp placed
    exact List.prefix_iff_getElem?.mp kept context inside

end Workbench

/-! ## Orders that overlap -/

/-- The tree that an order gives to its mutator. -/
def Order.bound? : Order σ → Option Tree
  | .initRound tree => some tree
  | _ => none

/-- What an order comes to, by what it leaves of the mutator that got it. -/
structure Order.Leaves (order : Order σ) (mutator : Mutator)
    (outcome : Mutator × Except (Stop MutationError) Yield) : Prop where
  engine : outcome.1.engine = mutator.engine
  bound : outcome.1.bound = order.bound?.or mutator.bound
  /-- Counts change only with a request that is answered. -/
  tally : outcome.1.tally = mutator.tally ∨
    ∃ source sample, order = .mutate source ∧ outcome.2 = .ok (.sample sample)
  /-- An order that does not succeed leaves the mutator as it was. -/
  failed : ∀ stop, outcome.2 = .error stop → outcome.1 = mutator

/-- An order that leaves its mutator as it was. Nothing is counted by it and nothing bound. -/
theorem Order.leaves_same {order : Order σ} (unbinding : order.bound? = none) (mutator : Mutator)
    (result : Except (Stop MutationError) Yield) : order.Leaves mutator (mutator, result) where
  engine := rfl
  bound := by rw [unbinding, Option.none_or]
  tally := .inl rfl
  failed _ _ := rfl

variable [Source σ]

/-- Whatever the replies that it gets, an order leaves of its mutator what it should. Replies tell
of the corpus, and a mutator keeps nothing of them. -/
theorem Mutator.leaves_of_carryOut {mutator : Mutator} {order : Order σ} {deeds : List Deed}
    {outcome : Mutator × Except (Stop MutationError) Yield}
    (comes : (mutator.carryOut order).ComesTo outcome deeds) : order.Leaves mutator outcome := by
  cases order with
  | generate source =>
    obtain ⟨value, first, second, -, last, rfl⟩ := Process.comesTo_bind.mp comes
    obtain ⟨-, rfl⟩ := Process.comesTo_done.mp last
    exact Order.leaves_same rfl mutator _
  | createContext sample =>
    obtain ⟨value, first, second, -, last, rfl⟩ := Process.comesTo_bind.mp comes
    obtain ⟨-, rfl⟩ := Process.comesTo_done.mp last
    exact Order.leaves_same rfl mutator _
  | initRound tree =>
    obtain ⟨-, rfl⟩ := Process.comesTo_done.mp comes
    exact ⟨rfl, rfl, .inl rfl, nofun⟩
  | mutate source =>
    obtain ⟨⟨result, reached⟩, first, second, answered, last, rfl⟩ :=
      Process.comesTo_bind.mp comes
    obtain ⟨-, rfl⟩ := Process.comesTo_done.mp last
    cases result with
    | error stop => exact Order.leaves_same rfl mutator _
    | ok answer =>
      cases binds : mutator.bound with
      | none =>
        rw [Mutator.mutating_of_unbound binds] at answered
        cases (Process.comesTo_done.mp answered).2
      | some bound =>
        obtain ⟨corpus, -, served, -⟩ := Mutator.served_of_comes binds answered
        obtain ⟨engine, kept, -⟩ := (served answer rfl).answers binds
        exact ⟨engine, kept.trans binds.symm, .inr ⟨source, answer.2, rfl, rfl⟩, nofun⟩

/-- An order in progress that has got this far: it gives no tree to its mutator, what it is about
to do to the corpus is known, and so is what it will leave of its mutator. -/
structure Order.Pending (order : Order σ) (mutator : Mutator)
    (process : Process (Mutator × Except (Stop MutationError) Yield)) : Prop where
  unbinding : order.bound? = none
  underway : order.Underway mutator process
  leaves : ∀ outcome deeds, process.ComesTo outcome deeds → order.Leaves mutator outcome

namespace Floor

/-- The tree that is bound to the mutator at a desk. -/
def boundAt (floor : Floor σ) (number : Nat) : Option Tree :=
  floor.desks[number]?.bind fun desk => desk.mutator.bound

/-- All orders in progress are pending. -/
def Orderly (floor : Floor σ) : Prop :=
  ∀ desk ∈ floor.desks, ∀ task, desk.task = some task →
    task.order.Pending desk.mutator (.seek task.access task.next)

/-- What a move can do, and what it leaves of the floor. -/
inductive Turn (floor : Floor σ) : Move σ → Floor σ → Prop where
  /-- There is nobody to make the move. -/
  | nothing (move : Move σ) : Turn floor move floor
  /-- A new mutator takes a desk. -/
  | arrived (engine : Engine) :
      Turn floor (.arrive engine) { floor with desks := floor.desks ++ [{ mutator := { engine } }] }
  /-- An order goes on to its next access. -/
  | waited (move : Move σ) (number : Nat) (desk : Desk σ) (task : Task σ) (shared : Shared)
      (found : floor.desks[number]? = some desk)
      (pending : task.order.Pending desk.mutator (.seek task.access task.next))
      (corpus : shared.corpus = floor.shared.corpus) :
      Turn floor move { floor with
        shared, desks := floor.desks.set number { mutator := desk.mutator, task := some task } }
  /-- An order is concluded. -/
  | concluded (move : Move σ) (number : Nat) (desk : Desk σ) (order : Order σ)
      (outcome : Mutator × Except (Stop MutationError) Yield) (shared : Shared)
      (found : floor.desks[number]? = some desk)
      (leaves : order.Leaves desk.mutator outcome)
      (asked : order.bound? = none ∨ move = .begin number order)
      (corpus : shared.corpus = floor.shared.corpus ∨
        ∃ sample tree, order = .createContext sample ∧ outcome.2 = .ok (.context tree) ∧
          desk.mutator.engine.grammar.readSample sample = .ok tree ∧
            shared.corpus = floor.shared.corpus.register tree) :
      Turn floor move { floor with
        shared
        desks := floor.desks.set number { mutator := outcome.1 }
        concluded := floor.concluded ++ [⟨desk.mutator, order, outcome.2⟩] }

omit [Source σ] in
/-- An order that registers nothing goes on to its next access or is concluded, and in both cases
the corpus is as the access has left it. -/
theorem turn_goOn {floor : Floor σ} (move : Move σ) {number : Nat} {desk : Desk σ}
    (found : floor.desks[number]? = some desk) {order : Order σ}
    (unbinding : order.bound? = none) (other : ∀ sample, order ≠ .createContext sample)
    {process : Process (Mutator × Except (Stop MutationError) Yield)}
    (avoids : process.Avoids Access.Registers)
    (leaves : ∀ outcome deeds, process.ComesTo outcome deeds → order.Leaves desk.mutator outcome)
    {shared : Shared} (corpus : shared.corpus = floor.shared.corpus) :
    floor.Turn move ({ floor with shared }.goOn number desk.mutator order process) := by
  cases process with
  | done outcome =>
    exact .concluded move number desk order outcome shared found (leaves _ _ .done)
      (.inl unbinding) (.inl corpus)
  | seek access next =>
    exact .waited move number desk ⟨order, access, next⟩ shared found
      ⟨unbinding, (Order.underway_iff other).mpr avoids, leaves⟩ corpus

/-- A move does one of these things, if all orders in progress are pending. What is kept on a floor
is shown for each of them. -/
theorem Orderly.turn {floor : Floor σ} (orderly : floor.Orderly) (move : Move σ) :
    floor.Turn move (floor.move move) := by
  cases move with
  | arrive engine => exact .arrived engine
  | begin number order =>
    simp only [Floor.move]
    split
    · next mutator found =>
      cases order with
      | initRound tree =>
        have leaves : (Order.initRound tree : Order σ).Leaves mutator
            (mutator.initRound tree, .ok .bound) := Mutator.leaves_of_carryOut .done
        exact .concluded _ number _ _ _ floor.shared found leaves (.inr rfl) (.inl rfl)
      | createContext sample =>
        have known := mutator.carryOut_createContext (σ := σ) sample
        cases read : mutator.engine.grammar.readSample sample with
        | ok tree =>
          rw [read] at known
          have leaves : ∀ outcome deeds,
              (mutator.carryOut (.createContext sample : Order σ)).ComesTo outcome deeds →
                (Order.createContext sample : Order σ).Leaves mutator outcome :=
            fun _ _ => Mutator.leaves_of_carryOut
          rw [known] at leaves ⊢
          exact .waited _ number _ ⟨.createContext sample, .register tree, _⟩ floor.shared found
            ⟨rfl, ⟨tree, read, rfl⟩, leaves⟩ rfl
        | error refusal =>
          rw [read] at known
          rw [known]
          exact .concluded _ number _ _ (mutator, _) floor.shared found
            (Order.leaves_same rfl mutator _) (.inl rfl) (.inl rfl)
      | generate | mutate =>
        exact turn_goOn _ found rfl (by simp) (mutator.avoids_carryOut (by simp))
          (fun _ _ => Mutator.leaves_of_carryOut) rfl
    · exact .nothing _
  | proceed number =>
    simp only [Floor.move]
    split
    · next mutator order access next found =>
      obtain ⟨unbinding, underway, leaves⟩ := orderly _ (List.mem_of_getElem? found) _ rfl
      have further {outcome : Mutator × Except (Stop MutationError) Yield} {deeds : List Deed}
          (comes : (next (floor.shared.grant access).1).ComesTo outcome deeds) :
          order.Leaves mutator outcome := leaves outcome _ (.seek _ comes)
      by_cases creates : ∃ sample, order = .createContext sample
      · obtain ⟨sample, rfl⟩ := creates
        dsimp only at underway
        obtain ⟨tree, read, process⟩ := underway
        cases process
        exact .concluded _ number _ _ (mutator, _) _ found (further .done) (.inl rfl)
          (.inr ⟨sample, tree, rfl, rfl, read, rfl⟩)
      · have other : ∀ sample, order ≠ .createContext sample :=
          fun sample same => creates ⟨sample, same⟩
        have avoids := (Order.underway_iff other).mp underway
        exact turn_goOn _ found unbinding other (avoids.2 _) (fun _ _ => further)
          (floor.shared.corpus_grant avoids.1)
    · exact .nothing _

omit [Source σ] in
/-- A desk that is changed is what is found in its place, and nowhere else, as desks keep their
numbers. -/
theorem getElem?_setDesk {desks : List (Desk σ)} {number : Nat} {old : Desk σ}
    (found : desks[number]? = some old) (new : Desk σ) (other : Nat) :
    (desks.set number new)[other]? = if other = number then some new else desks[other]? := by
  obtain ⟨inside, -⟩ := List.getElem?_eq_some_iff.mp found
  rw [List.getElem?_set]
  by_cases same : other = number
  · subst same
    rw [if_pos rfl, if_pos rfl, if_pos inside]
  · rw [if_neg same, if_neg (Ne.symm same)]

omit [Source σ] in
/-- Whatever a move does, orders in progress are pending after it. The order of the move has come
one access further, and the others are as they were. -/
theorem Orderly.after_turn {floor next : Floor σ} (orderly : floor.Orderly) {move : Move σ}
    (turn : floor.Turn move next) : next.Orderly := by
  intro desk member task busy
  cases turn with
  | nothing => exact orderly desk member task busy
  | arrived engine =>
    rcases List.mem_append.mp member with old | new
    · exact orderly desk old task busy
    · obtain rfl := List.mem_singleton.mp new
      cases busy
  | waited _ number other pending shared found waits corpus =>
    rcases List.mem_or_eq_of_mem_set member with kept | rfl
    · exact orderly desk kept task busy
    · cases busy
      exact waits
  | concluded _ number other order outcome shared found leaves asked corpus =>
    rcases List.mem_or_eq_of_mem_set member with kept | rfl
    · exact orderly desk kept task busy
    · cases busy

omit [Source σ] in
/-- Where there is no desk there is no order in progress, whatever is shared. -/
theorem orderly_nobody (shared : Shared) : Floor.Orderly (σ := σ) { shared } :=
  fun _ member => absurd member List.not_mem_nil

/-- On a floor that starts with nobody at work all orders in progress are pending, after any
moves. -/
theorem orderly_after (shared : Shared) (moves : List (Move σ)) :
    (Floor.after { shared } moves).Orderly := by
  suffices fromHere : ∀ floor : Floor σ, floor.Orderly → (floor.after moves).Orderly from
    fromHere { shared } (orderly_nobody shared)
  induction moves with
  | nil => exact fun floor orderly => orderly
  | cons move moves inductionHypothesis =>
    exact fun floor orderly => inductionHypothesis _ (orderly.after_turn (orderly.turn move))

/-- What a move leaves of the mutator at a desk, and what it concludes if that has changed. -/
structure Keeps (floor next : Floor σ) (move : Move σ) (number : Nat) (before after : Mutator) :
    Prop where
  engine : after.engine = before.engine
  bound : (∀ tree, move ≠ .begin number (.initRound tree)) → after.bound = before.bound
  tally : after.tally = before.tally ∨ ∃ source sample,
    next.concluded = floor.concluded ++ [⟨before, .mutate source, .ok (.sample sample)⟩]
  succeeded : after = before ∨ ∃ order yield,
    next.concluded = floor.concluded ++ [⟨before, order, .ok yield⟩]

/-- What a move leaves alone. -/
structure Frame (floor : Floor σ) (move : Move σ) : Prop where
  /-- What has been concluded stays so, with the trees that can be bound. -/
  concluded : floor.concluded <+: (floor.move move).concluded
  /-- The corpus changes only with the conclusion of an order to create a context, by the tree
  that is read in the sample. -/
  corpus : (floor.move move).shared.corpus = floor.shared.corpus ∨ ∃ mutator sample tree,
    (floor.move move).concluded =
        floor.concluded ++ [⟨mutator, .createContext sample, .ok (.context tree)⟩] ∧
      mutator.engine.grammar.readSample sample = .ok tree ∧
        (floor.move move).shared.corpus = floor.shared.corpus.register tree
  /-- A mutator keeps its engine. It keeps its bound tree unless it is given another one, its
  counts unless it concludes a request, and all of it unless an order of its own succeeds. -/
  desks : ∀ number desk, floor.desks[number]? = some desk →
    ∃ after, (floor.move move).desks[number]? = some after ∧
      floor.Keeps (floor.move move) move number desk.mutator after.mutator
  /-- A mutator is new without counts and without a bound tree. -/
  arrivals : ∀ (number : Nat) (after : Desk σ), floor.desks[number]? = none →
    (floor.move move).desks[number]? = some after →
      after.mutator.tally = {} ∧ after.mutator.bound = none
  /-- A sample that is refused is refused at once for what is wrong with it. -/
  refused : ∀ number mutator sample refusal, move = .begin number (.createContext sample) →
    floor.desks[number]? = some { mutator } →
      mutator.engine.grammar.readSample sample = .error refusal →
        floor.move move = { floor with
          concluded := floor.concluded ++
            [⟨mutator, .createContext sample, .error (refusal.mapError .sample)⟩] }
  /-- A request without a bound tree is refused at once, and draws nothing. -/
  unbound : ∀ number mutator source, move = .begin number (.mutate source) →
    floor.desks[number]? = some { mutator } → mutator.bound = none →
      mutator.mutating source = .done (.error (.error .nothingBound), source) ∧
        floor.move move = { floor with
          concluded := floor.concluded ++
            [⟨mutator, .mutate source, .error (.error .nothingBound)⟩] }

omit [Source σ] in
/-- A mutator that is as it was has kept everything, whatever the move is about. -/
theorem Keeps.refl (floor next : Floor σ) (move : Move σ) (number : Nat) (mutator : Mutator) :
    floor.Keeps next move number mutator mutator :=
  ⟨rfl, fun _ => rfl, .inl rfl, .inl rfl⟩

omit [Source σ] in
/-- A move keeps the mutators that it is not about, and of the one that it is about what its
order leaves. -/
theorem Turn.desks {floor next : Floor σ} {move : Move σ} (turn : floor.Turn move next)
    {number : Nat} {desk : Desk σ} (found : floor.desks[number]? = some desk) :
    ∃ after, next.desks[number]? = some after ∧
      floor.Keeps next move number desk.mutator after.mutator := by
  have same {next : Floor σ} {after : Desk σ} (there : next.desks[number]? = some after)
      (mutator : after.mutator = desk.mutator) : ∃ after, next.desks[number]? = some after ∧
        floor.Keeps next move number desk.mutator after.mutator :=
    ⟨after, there, mutator ▸ .refl ..⟩
  cases turn with
  | nothing => exact same found rfl
  | arrived engine =>
    obtain ⟨inside, -⟩ := List.getElem?_eq_some_iff.mp found
    exact same ((List.getElem?_append_left inside).trans found) rfl
  | waited _ other busy task shared there pending corpus =>
    have placed := getElem?_setDesk there { mutator := busy.mutator, task := some task } number
    split at placed
    · next here =>
      subst here
      obtain rfl := Option.some.inj (there.symm.trans found)
      exact same placed rfl
    · exact same (placed.trans found) rfl
  | concluded _ other asking order outcome shared there leaves asked corpus =>
    have placed := getElem?_setDesk there { mutator := outcome.1 } number
    split at placed
    · next here =>
      subst here
      obtain rfl := Option.some.inj (there.symm.trans found)
      refine ⟨_, placed, leaves.engine, fun unbinding => ?_, ?_, ?_⟩
      · rw [leaves.bound]
        rcases asked with none | rfl
        · rw [none, Option.none_or]
        · cases order with
          | initRound tree => exact absurd rfl (unbinding tree)
          | generate | createContext | mutate => rfl
      · refine leaves.tally.imp_right ?_
        rintro ⟨source, sample, rfl, answered⟩
        exact ⟨source, sample, by rw [answered]⟩
      · cases ended : outcome.2 with
        | error stop => exact .inl (leaves.failed stop ended)
        | ok yield => exact .inr ⟨order, yield, rfl⟩
    · exact same (placed.trans found) rfl

omit [Source σ] in
/-- A move puts into the corpus nothing but the tree of a context, when its order is concluded. The
sample of the order reads as that tree. -/
theorem Turn.corpus {floor next : Floor σ} {move : Move σ} (turn : floor.Turn move next) :
    next.shared.corpus = floor.shared.corpus ∨ ∃ mutator sample tree,
      next.concluded = floor.concluded ++ [⟨mutator, .createContext sample, .ok (.context tree)⟩] ∧
        mutator.engine.grammar.readSample sample = .ok tree ∧
          next.shared.corpus = floor.shared.corpus.register tree := by
  cases turn with
  | nothing | arrived => exact .inl rfl
  | waited _ number desk task shared found pending corpus => exact .inl corpus
  | concluded _ number desk order outcome shared found leaves asked corpus =>
    refine corpus.imp_right ?_
    rintro ⟨sample, tree, rfl, created, read, registered⟩
    exact ⟨desk.mutator, sample, tree, by rw [created], read, registered⟩

omit [Source σ] in
/-- What has been concluded stays so, and in its order, as a move adds one conclusion at the end or
none. -/
theorem Turn.isPrefix_concluded {floor next : Floor σ} {move : Move σ}
    (turn : floor.Turn move next) : floor.concluded <+: next.concluded := by
  cases turn with
  | nothing | arrived | waited => exact List.prefix_rfl
  | concluded => exact List.prefix_append _ _

omit [Source σ] in
/-- A desk that was not there before has been taken by a new mutator, with nothing counted and
nothing bound. -/
theorem Turn.arrivals {floor next : Floor σ} {move : Move σ} (turn : floor.Turn move next)
    {number : Nat} {after : Desk σ} (absent : floor.desks[number]? = none)
    (found : next.desks[number]? = some after) :
    after.mutator.tally = {} ∧ after.mutator.bound = none := by
  cases turn with
  | nothing => cases absent.symm.trans found
  | arrived engine =>
    rw [List.getElem?_append] at found
    split at found
    · cases absent.symm.trans found
    · obtain rfl := List.mem_singleton.mp (List.mem_of_getElem? found)
      exact ⟨rfl, rfl⟩
  | waited _ other busy task shared there pending corpus =>
    rw [getElem?_setDesk there] at found
    split at found
    · next here => cases absent.symm.trans (here ▸ there)
    · cases absent.symm.trans found
  | concluded _ other asking order outcome shared there leaves asked corpus =>
    rw [getElem?_setDesk there] at found
    split at found
    · next here => cases absent.symm.trans (here ▸ there)
    · cases absent.symm.trans found

/-- Every move leaves alone what it is not about, if all orders in progress are pending. As with
calls, the parts are read off the one thing that the move does. -/
theorem Orderly.frame {floor : Floor σ} (orderly : floor.Orderly) (move : Move σ) :
    floor.Frame move where
  concluded := (orderly.turn move).isPrefix_concluded
  corpus := (orderly.turn move).corpus
  desks _ _ found := (orderly.turn move).desks found
  arrivals _ _ absent found := (orderly.turn move).arrivals absent found
  refused := by
    rintro number mutator sample refusal rfl found refused
    have known := mutator.carryOut_createContext (σ := σ) sample
    rw [refused] at known
    simp only [Floor.move, found, known, goOn, Crew.set_of_found found]
  unbound := by
    rintro number mutator source rfl found unbound
    have known := Mutator.mutating_of_unbound unbound source
    refine ⟨known, ?_⟩
    have concluded : mutator.carryOut (.mutate source) =
        .done (mutator, .error (.error .nothingBound)) := by
      simp only [Mutator.carryOut, known]
      rfl
    simp only [Floor.move, found, concluded, goOn, Crew.set_of_found found]

/-! ### Moves since a tree was bound -/

/-- A bound tree stays through all moves that do not give its mutator another one. The induction is
on the moves, and a desk that is busy keeps the mutator that its order has started with. -/
theorem Orderly.boundAt_after {floor : Floor σ} (orderly : floor.Orderly) {number : Nat}
    {desk : Desk σ} (found : floor.desks[number]? = some desk) {moves : List (Move σ)}
    (unbinding : ∀ move ∈ moves, ∀ tree, move ≠ .begin number (.initRound tree)) :
    (floor.after moves).boundAt number = desk.mutator.bound := by
  induction moves generalizing floor desk with
  | nil => rw [after, List.foldl_nil, boundAt, found, Option.bind_some]
  | cons move moves inductionHypothesis =>
    obtain ⟨next, there, keeps⟩ := (orderly.frame move).desks number desk found
    rw [← keeps.bound (unbinding move List.mem_cons_self)]
    exact inductionHypothesis (orderly.after_turn (orderly.turn move)) there
      fun other later => unbinding other (List.mem_cons_of_mem _ later)

/-- A mutator that is not there yet has no bound tree until it is given one, whoever arrives in the
meantime. -/
theorem Orderly.boundAt_after_of_absent {floor : Floor σ} (orderly : floor.Orderly) {number : Nat}
    (absent : floor.desks[number]? = none) {moves : List (Move σ)}
    (unbinding : ∀ move ∈ moves, ∀ tree, move ≠ .begin number (.initRound tree)) :
    (floor.after moves).boundAt number = none := by
  induction moves generalizing floor with
  | nil => rw [after, List.foldl_nil, boundAt, absent, Option.bind_none]
  | cons move moves inductionHypothesis =>
    have orderlyNext := orderly.after_turn (orderly.turn move)
    have later : ∀ other ∈ moves, ∀ tree, other ≠ .begin number (.initRound tree) :=
      fun other member => unbinding other (List.mem_cons_of_mem _ member)
    cases there : (floor.move move).desks[number]? with
    | none => exact inductionHypothesis orderlyNext there later
    | some next =>
      rw [← ((orderly.frame move).arrivals number next absent there).2]
      exact orderlyNext.boundAt_after there later

/-- The tree that was given to a mutator last is bound to it, whatever has been done since, also by
the others. -/
theorem Orderly.boundAt_of_last {floor : Floor σ} (orderly : floor.Orderly) {number : Nat}
    {mutator : Mutator} (found : floor.desks[number]? = some { mutator }) (tree : Tree)
    {since : List (Move σ)}
    (unbinding : ∀ move ∈ since, ∀ other, move ≠ .begin number (.initRound other)) :
    (floor.after (.begin number (.initRound tree) :: since)).boundAt number = some tree := by
  have there : (floor.move (.begin number (.initRound tree))).desks[number]? =
      some { mutator := mutator.initRound tree } := by
    simp only [Floor.move, found, Mutator.carryOut]
    exact (getElem?_setDesk found _ number).trans (if_pos rfl)
  exact (orderly.after_turn (orderly.turn _)).boundAt_after there unbinding

end Floor

/-- Operations touch only what is theirs, and errors change nothing. At a workbench, whatever it
has come to, every call leaves alone what it is not about; the tree that was given to a mutator
last is bound to it, whatever calls with whatever sources came since, and it is the tree of its
context still; a mutator that was never given one has none. On a floor, whatever moves it has
made, every move leaves alone what it is not about, also while orders of several mutators overlap,
and the tree that was given to a mutator last is bound to it. -/
theorem operations_touch_only_their_own :
    (∀ (bench : Workbench σ) (call : Call), bench.Frame call) ∧
    (∀ (bench : Workbench σ) (number context : Nat) (mutator : Mutator) (tree : Tree) (source : σ)
      (since : List (σ × Call)), bench.mutators[number]? = some mutator →
        bench.contexts[context]? = some tree →
          (∀ call ∈ since, ∀ other, call.2 ≠ .initRound number other) →
            let now := bench.afterAll ((source, .initRound number context) :: since)
            now.boundAt number = some tree ∧ now.contexts[context]? = some tree) ∧
    (∀ (bench : Workbench σ) (number : Nat) (calls : List (σ × Call)),
      bench.mutators[number]? = none →
        (∀ call ∈ calls, ∀ context, call.2 ≠ .initRound number context) →
          (bench.afterAll calls).boundAt number = none) ∧
    ∀ (shared : Shared) (moves : List (Move σ)),
      let floor := Floor.after { shared } moves
      (∀ move, floor.Frame move) ∧
      (∀ (number : Nat) (mutator : Mutator) (tree : Tree) (since : List (Move σ)),
        floor.desks[number]? = some { mutator } →
          (∀ move ∈ since, ∀ other, move ≠ .begin number (.initRound other)) →
            (floor.after (.begin number (.initRound tree) :: since)).boundAt number = some tree) ∧
      ∀ number, (∀ move ∈ moves, ∀ tree, move ≠ .begin number (.initRound tree)) →
        floor.boundAt number = none := by
  refine ⟨Workbench.frame, ?bound, ?unbound, fun shared moves => ?floor⟩
  case bound =>
    intro bench number context mutator tree source since found placed unbinding
    exact Workbench.boundAt_of_last found placed source unbinding
  case unbound =>
    intro bench number calls absent unbinding
    exact Workbench.boundAt_afterAll_of_absent absent unbinding
  case floor =>
    have orderly := Floor.orderly_after shared moves
    refine ⟨orderly.frame, fun number mutator tree since found unbinding => ?_,
      fun number unbinding => ?_⟩
    · exact orderly.boundAt_of_last found tree unbinding
    · exact (Floor.orderly_nobody shared).boundAt_after_of_absent rfl unbinding

/-- A workbench whose corpus has room for one tree. One is bound to its mutator, and is the tree
that the corpus holds. -/
def Workbench.ofOneTree : Workbench SplitMix where
  grammar := .numerals
  patience := 50
  journal := { source := ⟨0⟩ }
  corpus := (Corpus.withLimit 1).register Grammar.one
  mutators := #[.ofOne]
  contexts := #[Grammar.one]
  samples :=
    [(0, Tree.toSample (.expansion (.repetition 0 "list" (.plain 1 "digit")) [])), (1, [9])]

/-- One stays bound, and can be bound, while another tree takes its place in the corpus, a request
is answered and a sample is refused. -/
theorem operations_touch_only_their_own_ofOneTree :
    let since : List (SplitMix × Call) :=
      [(⟨1⟩, .createContext 0 0), (⟨2⟩, .mutate 0 2), (⟨3⟩, .createContext 0 1)]
    let now := Workbench.ofOneTree.afterAll ((⟨0⟩, .initRound 0 0) :: since)
    now.boundAt 0 = some Grammar.one ∧ now.contexts[0]? = some Grammar.one ∧
      (now.corpus.trees.contains Grammar.one = false ∧ now.contexts.size = 2) ∧
        now.mutators[0]?.map (fun mutator => mutator.tally.requests) = some 1 := by
  intro since now
  obtain ⟨kept, placed⟩ := operations_touch_only_their_own.2.1 Workbench.ofOneTree 0 0 .ofOne
    Grammar.one ⟨0⟩ since rfl rfl (by simp [since])
  have bound : now.boundAt 0 = some Grammar.one := kept
  have context : now.contexts[0]? = some Grammar.one := placed
  refine ⟨bound, context, ?_, ?_⟩
  · decide +kernel
  · decide +kernel

end Graft
