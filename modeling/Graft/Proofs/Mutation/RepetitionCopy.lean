import Graft.Proofs.Mutation.RepetitionEdit
import Graft.Proofs.Random.Fraction

/-!
# What a copy into a repetition makes

On a given source a copy first deletes a run from the position on, if it is asked to. Then it
measures a run of the donor's children by the draws that follow, and puts it in behind the
position, as the children are after the deletion. Either run ends with the children it is taken
from; where the next draw always says to go on it ends there and nowhere before.
-/

namespace Graft.Engine

open Graft.Random

variable {σ : Type} [Source σ] {engine : Engine}

/-- Where a run goes on with certainty there is no end of draws that say so, as every fraction is at
most one. -/
theorem streak_of_certain (certain : engine.settings.repeatProbability = 1) (source : σ) :
    engine.streak source = ⊤ := by
  have always (source : σ) : engine.Continues source := by
    rw [Continues, certain]
    exact Chance.unitFraction_le_one _
  have all : {drawn | ∀ earlier ≤ drawn, engine.Continues (Source.after source earlier)} =
      Set.univ := by
    apply Set.eq_univ_of_forall
    intro drawn earlier _
    exact always _
  rw [streak, all, Set.encard_univ, ENat.card_eq_top_of_infinite]

/-- The second half of a copy measures a run of what is available and puts it in, and is never
refused. The run is no longer than what there is, so that its end is not missed. -/
theorem copying_eq (engine : Engine) (symbol : Symbol) {left : List Tree} {position : Nat}
    (placed : position ≤ left.length) (available : List Tree) (source : σ) :
    ∃ copied : Nat,
      (copied : ℕ∞) = min (available.length : ℕ∞) (1 + engine.streak source) ∧
      (do
        let count ← engine.runLength available.length
        if available.length < count then throw (.positionPastEnd count available.length)
        return .changed (.expansion symbol (← insertAfter position (available.take count) left)) :
          Chance σ Edited) source =
        .ok (.changed (.expansion symbol (withRun position (available.take copied) left)))
          (Source.after source copied) := by
  obtain ⟨copied, counted, ended⟩ := runLength_eq engine available.length source
  have within : ¬ available.length < copied := by
    rw [not_lt, ← Nat.cast_le (α := ℕ∞), counted]
    exact min_le_left _ _
  use copied, counted
  rw [bind_of_ok ended]
  simp only [within, ↓reduceIte, insertAfter_eq placed]
  rfl

/-- A copy deletes a run and puts one in, each as long as draws make it, and is never refused. The
second run is measured on what the first has left of the source. -/
theorem spliceRepetition_eq (engine : Engine) (symbol : Symbol) {children : List Tree}
    (donor : Tree) {position : Nat} (inside : position ≤ children.length) (donorPosition : Nat)
    (delete : Bool) (source : σ) :
    ∃ deleted copied : Nat,
      (deleted : ℕ∞) = (if delete = true then
        min ((children.length - position : Nat) : ℕ∞) (1 + engine.streak source) else 0) ∧
      (copied : ℕ∞) = min ((donor.children.length - donorPosition : Nat) : ℕ∞)
        (1 + engine.streak (Source.after source deleted)) ∧
      engine.spliceRepetition (.expansion symbol children) donor position donorPosition delete
          source =
        .ok (.changed (.expansion symbol (withRun position
          ((donor.children.drop donorPosition).take copied)
          (withoutRun position deleted children)))) (Source.after source (deleted + copied)) := by
  have available : (donor.children.drop donorPosition).length =
      donor.children.length - donorPosition := List.length_drop
  cases delete with
  | false =>
    obtain ⟨copied, copying, ended⟩ :=
      copying_eq engine symbol inside (donor.children.drop donorPosition) source
    rw [available] at copying
    use 0, copied, rfl, copying
    rw [withoutRun_zero, Nat.zero_add]
    exact ended
  | true =>
    obtain ⟨deleted, deletion, within, removed⟩ := deleteRun_eq engine inside source
    have placed : position ≤ (withoutRun position deleted children).length := by
      rw [length_withoutRun within]
      omega
    obtain ⟨copied, copying, ended⟩ := copying_eq engine symbol placed
      (donor.children.drop donorPosition) (Source.after source deleted)
    rw [available] at copying
    use deleted, copied, deletion, copying
    rw [Source.after_add, ← ended]
    exact bind_of_ok removed

/-- A copy is exact. From the position on it deletes a run, as long as draws make it, if it is to
delete, and nothing otherwise. Behind the element that is then at the position, or behind all where
there is none, it puts in a run of the donor's children from the donor position on, as long as the
draws that follow make it. If runs go on with certainty nothing is left from the position on, and
nothing of the donor's children from the donor position on is missing. -/
theorem spliceRepetition_exact (engine : Engine) (symbol : Symbol) {children : List Tree}
    (donor : Tree) {position : Nat} (inside : position ≤ children.length) (donorPosition : Nat)
    (delete : Bool) (source : σ) :
    ∃ deleted copied : Nat,
      (deleted : ℕ∞) = (if delete = true then
        min ((children.length - position : Nat) : ℕ∞) (1 + engine.streak source) else 0) ∧
      (copied : ℕ∞) = min ((donor.children.length - donorPosition : Nat) : ℕ∞)
        (1 + engine.streak (Source.after source deleted)) ∧
      engine.spliceRepetition (.expansion symbol children) donor position donorPosition delete
          source =
        .ok (.changed (.expansion symbol
          (let left := children.take position ++ children.drop (position + deleted)
          let place := if position < left.length then position + 1 else position
          left.take place ++ (donor.children.drop donorPosition).take copied ++ left.drop place)))
          (Source.after source (deleted + copied)) ∧
      (engine.settings.repeatProbability = 1 →
        (delete = true → children.drop (position + deleted) = []) ∧
          (donor.children.drop donorPosition).take copied = donor.children.drop donorPosition) := by
  obtain ⟨deleted, copied, deletion, copying, spliced⟩ :=
    spliceRepetition_eq engine symbol donor inside donorPosition delete source
  use deleted, copied, deletion, copying, spliced
  intro certain
  constructor
  · intro deletes
    have all : deleted = children.length - position := by
      rw [if_pos deletes, streak_of_certain certain, add_top, min_top_right] at deletion
      exact Nat.cast_injective deletion
    apply List.drop_of_length_le
    omega
  · have all : copied = donor.children.length - donorPosition := by
      rw [streak_of_certain certain, add_top, min_top_right] at copying
      exact Nat.cast_injective copying
    apply List.take_of_length_le
    rw [List.length_drop, all]

/-- An engine for binary numerals whose runs go on with certainty. -/
def ofEndlessRuns : Engine :=
  { ofDigits with settings := { ofDigits.settings with repeatProbability := 1 } }

/-- Of three digits the middle one is deleted, and both digits of the donor are copied behind the
last. Where runs go on with certainty all digits from the middle one on are deleted. -/
theorem spliceRepetition_exact_digits :
    1 ≤ (digits [48, 49, 49]).length ∧
    (∃ (source : Script) (deleted copied : Nat),
      (deleted : ℕ∞) = min 2 (1 + ofDigits.streak source) ∧
      (copied : ℕ∞) = min 2 (1 + ofDigits.streak (Source.after source deleted)) ∧
      ofDigits.spliceRepetition (numeral [48, 49, 49]) (numeral [49, 48]) 1 0 true source =
        .ok (.changed (numeral [48, 49, 49, 48])) (Source.after source (deleted + copied))) ∧
    ∃ (source : Script) (deleted : Nat),
      (deleted : ℕ∞) = min 2 (1 + ofEndlessRuns.streak source) ∧
      (digits [48, 49, 49]).drop (1 + deleted) = [] := by
  let source : Script :=
    { words := [18446744073709551615, 0, 18446744073709551615], generator := .splitMix ⟨0⟩ }
  have spliced :
      ofDigits.spliceRepetition (numeral [48, 49, 49]) (numeral [49, 48]) 1 0 true source =
        .ok (.changed (numeral [48, 49, 49, 48])) { source with words := [], draws := 3 } := rfl
  have inside : 1 ≤ (digits [48, 49, 49]).length := by decide
  use inside
  constructor
  · obtain ⟨deleted, copied, deletion, copying, exact, -⟩ :=
      spliceRepetition_exact ofDigits ofDigits.root (numeral [49, 48]) inside 0 true source
    use source, deleted, copied, deletion, copying
    injection spliced.symm.trans exact with _ reached
    rw [spliced, reached]
  · obtain ⟨deleted, copied, deletion, -, -, all⟩ :=
      spliceRepetition_exact ofEndlessRuns ofDigits.root (numeral [49, 48]) inside 0 true source
    have certain : ofEndlessRuns.settings.repeatProbability = 1 := rfl
    exact ⟨source, deleted, deletion, (all certain).1 rfl⟩

end Graft.Engine
