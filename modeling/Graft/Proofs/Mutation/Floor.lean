import Graft.Mutation.Floor
import Graft.Proofs.Corpus
import Graft.Proofs.Mutation.Locality
import Graft.Proofs.Mutation.Errand
import Graft.Proofs.Sharing.Avoidance

/-!
# The corpus of a floor

However the work of mutators is interleaved, their corpus tells the contexts that
they have created, in the order in which they created them. Only an order to
create a context adds to the corpus, and it adds one tree, with its only access.
All other orders, and those to create a context that are refused, leave no trace.
-/

namespace Graft

open Graft.Random

/-- The access puts a tree into the corpus. -/
def Access.Registers : Access → Prop
  | .register _ => True
  | _ => False

/-- No other access changes the corpus. Registering is thus the only access that has to be followed
to know what the corpus holds. -/
theorem Shared.corpus_grant (shared : Shared) {access : Access} (other : ¬ access.Registers) :
    (shared.grant access).2.corpus = shared.corpus := by
  cases access with
  | look => rfl
  | register tree => exact absurd trivial other
  | write path content =>
    simp only [grant]
    cases shared.files.write path content <;> rfl
  | note event => rfl

variable {σ : Type}

/-- What an order to create a context comes to, by the sample. -/
def Mutator.contextOf (mutator : Mutator) (sample : Bytes) : Except (Stop MutationError) Yield :=
  match mutator.engine.grammar.readSample sample with
  | .ok tree => .ok (.context tree)
  | .error refusal => .error (refusal.mapError .sample)

/-- An order to create a context came to what the mutator that got it reads in the sample. -/
def Concluded.Decodes (concluded : Concluded σ) : Prop :=
  ∀ sample, concluded.order = .createContext sample →
    concluded.result = concluded.mutator.contextOf sample

/-- What a busy mutator is about to do. If it is to create a context, it has read the tree and
only has to register it; if not, it will not register anything. -/
def Order.Underway (mutator : Mutator) (order : Order σ)
    (process : Process (Mutator × Except (Stop MutationError) Yield)) : Prop :=
  match order with
  | .createContext sample => ∃ tree, mutator.engine.grammar.readSample sample = .ok tree ∧
      process = .seek (.register tree) fun _ => .done (mutator, .ok (.context tree))
  | _ => process.Avoids Access.Registers

/-- An order other than to create a context is under way if nothing will be registered, whatever
replies it still gets. -/
theorem Order.underway_iff {mutator : Mutator} {order : Order σ}
    {process : Process (Mutator × Except (Stop MutationError) Yield)}
    (other : ∀ sample, order ≠ .createContext sample) :
    order.Underway mutator process ↔ process.Avoids Access.Registers := by
  cases order with
  | createContext sample => exact absurd rfl (other sample)
  | generate | initRound | mutate => exact Iff.rfl

namespace Floor

/-- The corpus holds what has been created, every mutator that is busy is on its way, and what
was created is what the samples held. -/
structure Sound (limit? : Option Nat) (floor : Floor σ) : Prop where
  corpus : floor.shared.corpus.Holds limit? floor.created
  underway : ∀ desk ∈ floor.desks, ∀ task, desk.task = some task →
    task.order.Underway desk.mutator (.seek task.access task.next)
  decodes : ∀ concluded ∈ floor.concluded, concluded.Decodes

variable {limit? : Option Nat} {floor : Floor σ}

/-- A desk that is changed is the one it was changed to, or it is one that there was. Soundness has
to be shown for the first only. -/
theorem Sound.setDesk (sound : floor.Sound limit?) (number : Nat) {desk : Desk σ}
    (underway : ∀ task, desk.task = some task →
      task.order.Underway desk.mutator (.seek task.access task.next)) :
    ∀ other ∈ floor.desks.set number desk, ∀ task, other.task = some task →
      task.order.Underway other.mutator (.seek task.access task.next) := by
  intro other member
  rcases List.mem_or_eq_of_mem_set member with kept | rfl
  · exact sound.underway other kept
  · exact underway

/-- An order is concluded, with what the corpus has got from it. The others in progress are as sound
as before, since they do not depend on what the corpus holds. -/
theorem Sound.conclude (sound : floor.Sound limit?) (shared : Shared) (number : Nat)
    (next : Mutator) (concluded : Concluded σ) (decodes : concluded.Decodes)
    (corpus : shared.corpus.Holds limit? (floor.created ++ concluded.created?.toList)) :
    Sound limit? { floor with
      shared
      desks := floor.desks.set number { mutator := next }
      concluded := floor.concluded ++ [concluded] } := by
  constructor
  · have created : (floor.concluded ++ [concluded]).filterMap Concluded.created? =
        floor.created ++ concluded.created?.toList := by
      rw [List.filterMap_append]
      cases known : concluded.created? <;> simp [Floor.created, known]
    simp only [Floor.created] at created corpus ⊢
    rw [created]
    exact corpus
  · exact sound.setDesk number nofun
  · intro other member
    rcases List.mem_append.mp member with old | new
    · exact sound.decodes other old
    · obtain rfl := List.mem_singleton.mp new
      exact decodes

/-- An order that never registers anything goes on. Whether it is concluded or waits for its next
access, the corpus is as it was. -/
theorem Sound.goOn (sound : floor.Sound limit?) (shared : Shared)
    (same : shared.corpus = floor.shared.corpus) (number : Nat) (mutator : Mutator)
    {order : Order σ} (other : ∀ sample, order ≠ .createContext sample)
    {process : Process (Mutator × Except (Stop MutationError) Yield)}
    (avoids : process.Avoids Access.Registers) :
    Sound limit? ({ floor with shared }.goOn number mutator order process) := by
  cases process with
  | done value =>
    obtain ⟨next, result⟩ := value
    refine sound.conclude shared number next _
      (fun sample creates => absurd creates (other sample)) ?_
    have none : (Concluded.created? ⟨mutator, order, result⟩ : Option Tree) = none := by
      cases order with
      | createContext sample => exact absurd rfl (other sample)
      | generate | initRound | mutate => rfl
    rw [same, none, Option.toList_none, List.append_nil]
    exact sound.corpus
  | seek access next =>
    constructor
    · exact same ▸ sound.corpus
    · apply sound.setDesk number
      rintro task ⟨⟩
      exact (Order.underway_iff other).mpr avoids
    · exact sound.decodes

end Floor

variable [Source σ]

namespace Mutator

/-- An order other than to create a context never registers anything, whatever it looks at and
notes. -/
theorem avoids_carryOut (mutator : Mutator) {order : Order σ}
    (other : ∀ sample, order ≠ .createContext sample) :
    (mutator.carryOut order).Avoids Access.Registers := by
  cases order with
  | generate source =>
    exact Process.Avoids.bind (avoids_trial (fun _ => id) mutator.generateSample source)
      fun _ => trivial
  | createContext sample => exact absurd rfl (other sample)
  | initRound tree => trivial
  | mutate source =>
    exact Process.Avoids.bind (avoids_mutating (fun _ => id) id mutator source) fun _ => trivial

/-- An order to create a context reads the sample first. If that is refused the order is
concluded, and if not there is one tree to register. -/
theorem carryOut_createContext (mutator : Mutator) (sample : Bytes) :
    mutator.carryOut (.createContext sample : Order σ) =
      match mutator.engine.grammar.readSample sample with
      | .ok tree => .seek (.register tree) fun _ => .done (mutator, .ok (.context tree))
      | .error refusal => .done (mutator, .error (refusal.mapError .sample)) := by
  simp only [carryOut, creatingContext]
  cases mutator.engine.grammar.readSample sample <;> rfl

end Mutator

namespace Floor

variable {limit? : Option Nat} {floor : Floor σ}

/-- A move keeps a floor sound. Of the orders only those to create a context can register anything,
and they do so as they are concluded. -/
theorem Sound.move (sound : floor.Sound limit?) (move : Move σ) :
    (floor.move move).Sound limit? := by
  cases move with
  | arrive engine =>
    refine ⟨sound.corpus, fun desk member => ?_, sound.decodes⟩
    rcases List.mem_append.mp member with old | new
    · exact sound.underway desk old
    · obtain rfl := List.mem_singleton.mp new
      exact nofun
  | begin number order =>
    simp only [Floor.move]
    split
    · next mutator found =>
      by_cases creates : ∃ sample, order = .createContext sample
      · obtain ⟨sample, rfl⟩ := creates
        rw [mutator.carryOut_createContext]
        cases read : mutator.engine.grammar.readSample sample with
        | ok tree =>
          refine ⟨sound.corpus, sound.setDesk number ?_, sound.decodes⟩
          rintro task ⟨⟩
          exact ⟨tree, read, rfl⟩
        | error refusal =>
          apply sound.conclude floor.shared number mutator
          · rintro other ⟨⟩
            simp only [Mutator.contextOf, read]
          · rw [show Concluded.created? _ = none from rfl, Option.toList_none, List.append_nil]
            exact sound.corpus
      · have other : ∀ sample, order ≠ .createContext sample :=
          fun sample same => creates ⟨sample, same⟩
        exact sound.goOn floor.shared rfl number mutator other (mutator.avoids_carryOut other)
    · exact sound
  | proceed number =>
    simp only [Floor.move]
    split
    · next mutator order access next found =>
      have underway := sound.underway _ (List.mem_of_getElem? found) _ rfl
      by_cases creates : ∃ sample, order = .createContext sample
      · obtain ⟨sample, rfl⟩ := creates
        dsimp only at underway
        obtain ⟨tree, read, process⟩ := underway
        cases process
        apply sound.conclude _ number mutator
        · rintro other ⟨⟩
          simp only [Mutator.contextOf, read]
        · exact sound.corpus.register tree
      · have other : ∀ sample, order ≠ .createContext sample :=
          fun sample same => creates ⟨sample, same⟩
        have avoids := (Order.underway_iff other).mp underway
        exact sound.goOn _ (floor.shared.corpus_grant avoids.1) number mutator other (avoids.2 _)
    · exact sound

/-- Moves one after the other keep a floor sound. The induction is on the moves, whichever desks
they are about. -/
theorem Sound.after (sound : floor.Sound limit?) (moves : List (Move σ)) :
    (floor.after moves).Sound limit? := by
  induction moves generalizing floor with
  | nil => exact sound
  | cons move moves inductionHypothesis => exact inductionHypothesis (sound.move move)

/-- No update of the corpus is lost, made twice or out of order. Let a floor start with an empty
corpus, with a limit or without, and let any mutators arrive, get any orders and make their
accesses in any order. At every moment the corpus holds the trees of the contexts that have been
created so far, in the order of their creation: all of them without a limit, and with one the
latest, as many as it leaves room for, which is at least one. These trees are what the mutators
read in the samples. A tree that is then registered is the last of them, and the reply is how
many trees the corpus holds afterwards. While the corpus is not empty, whatever word is drawn
yields a tree that it holds, and every tree that it holds is yielded by some word. -/
theorem corpus_tells_created (limit? : Option Nat) (files : Files) (events : Array Event)
    (moves : List (Move σ)) :
    let floor := after { shared := { corpus := .ofCapacity limit?, files, events } } moves
    floor.shared.corpus.trees.toList = Corpus.newest limit? floor.created ∧
      (∀ concluded ∈ floor.concluded, concluded.Decodes) ∧
      (∀ tree,
        (floor.shared.grant (.register tree)).1 =
            (Corpus.newest limit? (floor.created ++ [tree])).length ∧
          (floor.shared.grant (.register tree)).2.corpus.trees.toList =
            Corpus.newest limit? (floor.created ++ [tree])) ∧
      (floor.shared.corpus.size ≠ 0 → ∀ source : σ, ∃ tree ∈ floor.shared.corpus.trees,
        floor.shared.corpus.random source = .ok (some tree) (Source.next64 source).2) ∧
      (floor.shared.corpus.size ≤ UInt64.size → ∀ tree ∈ floor.shared.corpus.trees,
        ∃ word, ∀ source : σ, (Source.next64 source).1 = word →
          floor.shared.corpus.random source = .ok (some tree) (Source.next64 source).2) := by
  have start :
      Sound (σ := σ) limit? { shared := { corpus := .ofCapacity limit?, files, events } } :=
    ⟨Corpus.holds_nothing limit?, List.forall_mem_nil _, List.forall_mem_nil _⟩
  have sound := start.after moves
  refine ⟨sound.corpus.held, sound.decodes, fun tree => ?_,
    fun inhabited source => Corpus.random_mem inhabited source,
    fun countable tree present => Corpus.random_onto countable present⟩
  have registered := (sound.corpus.register tree).held
  constructor
  · rw [← registered, Array.length_toList]
    rfl
  · exact registered

/-- Two mutators of binary numerals create contexts in turn and while one of them is at a
request. The order that is begun first is not the one that is concluded first. -/
def overlapping : List (Move SplitMix) :=
  [.arrive Mutator.ofOne.engine, .arrive Mutator.ofOne.engine,
    .begin 0 (.createContext Grammar.one.toSample),
    .begin 1 (.createContext Grammar.one.toSample), .proceed 1, .proceed 0,
    .begin 0 (.initRound Grammar.one), .begin 0 (.mutate ⟨0⟩),
    .begin 1 (.createContext [9]), .begin 1 (.createContext Grammar.one.toSample),
    .proceed 0, .proceed 1, .proceed 0]

/-- With room for one tree the corpus holds the last of three. -/
theorem corpus_tells_created_overlapping :
    let floor := after { shared := { corpus := .ofCapacity (some 1) } } overlapping
    floor.shared.corpus.trees.toList = Corpus.newest (some 1) floor.created ∧
      floor.created.length = 3 ∧ floor.shared.corpus.size = 1 := by
  intro floor
  have told : floor.shared.corpus.trees.toList = Corpus.newest (some 1) floor.created :=
    (corpus_tells_created (some 1) {} #[] overlapping).1
  constructor
  · exact told
  · decide +kernel

end Floor

end Graft
