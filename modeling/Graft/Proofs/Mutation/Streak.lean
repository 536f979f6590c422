import Graft.Proofs.Mutation.Repetition
import Mathlib.Data.ENat.Lattice
import Mathlib.Data.Set.Card

/-!
# How long a run is

A run of elements goes on for as long as draws in a row say so. On a given source it
has one element more than there are such draws, unless the elements run out before, and
it takes a word for each of its elements. The draws in a row may be endless, the run is not.
-/

namespace Graft

namespace Random

variable {σ : Type} [Source σ]

/-- The source after so many words were taken from it. -/
def Source.after (source : σ) : Nat → σ
  | 0 => source
  | drawn + 1 => after (Source.next64 source).2 drawn

/-- Words are taken one after the other, so that they may be taken in two parts. -/
theorem Source.after_add (source : σ) (first second : Nat) :
    Source.after source (first + second) = Source.after (Source.after source first) second := by
  induction first generalizing source with
  | zero => rw [Nat.zero_add, after]
  | succ first inductionHypothesis => rw [Nat.succ_add, after, after, inductionHypothesis]

end Random

open Graft.Random

namespace Engine

variable {σ : Type} [Source σ]

/-- The next draw says that a run goes on. -/
def Continues (engine : Engine) (source : σ) : Prop :=
  Chance.unitFraction (Source.next64 source).1 ≤ engine.settings.repeatProbability

instance (engine : Engine) (source : σ) : Decidable (engine.Continues source) :=
  inferInstanceAs (Decidable (_ ≤ _))

/-- How many of the next draws say in a row that a run goes on. -/
noncomputable def streak (engine : Engine) (source : σ) : ℕ∞ :=
  Set.encard {drawn | ∀ earlier ≤ drawn, engine.Continues (Source.after source earlier)}

variable {engine : Engine} {source : σ}

/-- Whether a run goes on takes one word, and is told by its fraction. -/
theorem goesOn_eq (engine : Engine) (source : σ) :
    engine.goesOn source = .ok (decide (engine.Continues source)) (Source.after source 1) :=
  rfl

/-- There is no draw in a row where the first one says otherwise, whatever the later ones say. -/
theorem streak_of_not_continues (ends : ¬ engine.Continues source) : engine.streak source = 0 := by
  rw [streak, Set.encard_eq_zero, Set.eq_empty_iff_forall_notMem]
  intro drawn row
  exact ends (row 0 (Nat.zero_le drawn))

/-- A draw is put before those that come after it. The row may have no end, which is why its length
is an extended number. -/
theorem streak_of_continues (further : engine.Continues source) :
    engine.streak source = engine.streak (Source.after source 1) + 1 := by
  have split :
      {drawn | ∀ earlier ≤ drawn, engine.Continues (Source.after source earlier)} =
        insert 0 (Nat.succ ''
          {drawn | ∀ earlier ≤ drawn,
            engine.Continues (Source.after (Source.after source 1) earlier)}) := by
    ext drawn
    cases drawn with
    | zero => simpa [Source.after] using further
    | succ drawn =>
      simp only [Set.mem_ofPred_eq, Set.mem_insert_iff, Nat.succ_ne_zero, false_or,
        Set.mem_image, Nat.succ_inj, exists_eq_right]
      constructor
      · intro row earlier before
        exact row (earlier + 1) (Nat.succ_le_succ before)
      · intro row earlier before
        cases earlier with
        | zero => exact further
        | succ earlier => exact row earlier (Nat.le_of_succ_le_succ before)
  rw [streak, split, Set.encard_insert_of_notMem, Nat.succ_injective.encard_image]
  · rfl
  · simp

/-- A run has one element more than draws say in a row that it goes on, but no more elements than
there are, and takes a word for each of them. The induction is on the elements that there are,
each of which moves the source on. -/
theorem runLength_eq (engine : Engine) (available : Nat) (source : σ) :
    ∃ count : Nat, (count : ℕ∞) = min (available : ℕ∞) (1 + engine.streak source) ∧
      engine.runLength available source = .ok count (Source.after source count) := by
  induction available generalizing source with
  | zero => exact ⟨0, by simp, rfl⟩
  | succ available inductionHypothesis =>
    rw [runLength, bind_of_ok (goesOn_eq engine source)]
    by_cases further : engine.Continues source
    · obtain ⟨count, counted, ended⟩ := inductionHypothesis (Source.after source 1)
      use count + 1
      constructor
      · rw [streak_of_continues further, ← add_assoc, add_comm 1, Nat.cast_succ, Nat.cast_succ,
          counted, add_comm 1, min_add_add_right]
      · simp only [further, decide_true, ↓reduceIte, bind_of_ok ended]
        rfl
    · use 1
      constructor
      · simp [streak_of_not_continues further]
      · simp only [further, decide_false, Bool.false_eq_true, ↓reduceIte]
        rfl

/-- The run that is deleted is as long as draws make it, and lies within the children, since no more
than those from the position on are available. -/
theorem deleteRun_eq (engine : Engine) {position : Nat} {children : List Tree}
    (inside : position ≤ children.length) (source : σ) :
    ∃ count : Nat,
      (count : ℕ∞) = min ((children.length - position : Nat) : ℕ∞) (1 + engine.streak source) ∧
        position + count ≤ children.length ∧
          engine.deleteRun position children source =
            .ok (withoutRun position count children) (Source.after source count) := by
  obtain ⟨count, counted, ended⟩ := runLength_eq engine (children.length - position) source
  have most : count ≤ children.length - position := by
    rw [← Nat.cast_le (α := ℕ∞), counted]
    exact min_le_left _ _
  have within : ¬ children.length < position + count := by omega
  use count, counted, by omega
  rw [deleteRun, bind_of_ok ended]
  simp only [within, ↓reduceIte]
  rfl

end Engine

end Graft
