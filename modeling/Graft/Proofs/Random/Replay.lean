import Graft.Proofs.Double
import Graft.Random.Chance
import Graft.Random.Script

/-!
# Choices on given words

Words that are put before a source decide what is chosen. A choice replays them if
it has the same answer whatever comes after them and takes none but them. Words of
steps that follow each other are put one after the other.

Every number below a bound is chosen on some word, and on a second one where the
first one asks for it; the smallest fraction is never above a probability.
-/

namespace Graft.Chance

open Graft.Random

variable {α β : Type}

/-- On the words, and whatever comes after them, the choice has this answer, and it takes the
words and no others. -/
def Replays (choice : Chance Script α) (words : List UInt64) (answer : α) : Prop :=
  ∀ rest generator draws,
    choice { words := words ++ rest, generator, draws } =
      .ok answer { words := rest, generator, draws := draws + words.length }

namespace Replays

/-- A value at hand takes no words. It is the same whatever the script goes on with. -/
theorem pure (value : α) : Replays (Pure.pure value) [] value :=
  fun _ _ _ => rfl

/-- The words of two steps are put one after the other. The first step leaves the words of the
second as the rest of its script. -/
theorem bind {choice : Chance Script α} {next : α → Chance Script β} {words further : List UInt64}
    {value : α} {answer : β} (first : Replays choice words value)
    (rest : Replays (next value) further answer) :
    Replays (choice >>= next) (words ++ further) answer := by
  intro remaining generator draws
  simp only [Bind.bind, EStateM.bind, List.append_assoc,
    first (further ++ remaining) generator draws]
  rw [rest remaining generator, List.length_append, Nat.add_assoc]

/-- A change to the answer takes no further words, so the words are those of the choice. -/
theorem thenPure {choice : Chance Script α} {words : List UInt64} {value : α}
    (first : Replays choice words value) (change : α → β) :
    Replays (choice >>= fun value => Pure.pure (change value)) words (change value) := by
  have both : Replays (choice >>= fun value => Pure.pure (change value)) (words ++ [])
      (change value) := first.bind (pure (change value))
  rwa [List.append_nil] at both

end Replays

/-- A word is drawn as it is. The script is rid of it and otherwise as before. -/
theorem word_replays (drawn : UInt64) : Replays word [drawn] drawn :=
  fun _ _ _ => rfl

/-- Of a word the lower half is drawn. A script has whole words only, and half of one is lost with
each such draw. -/
theorem halfWord_replays (drawn : UInt64) : Replays halfWord [drawn] drawn.toUInt32 :=
  fun _ _ _ => rfl

/-- The fraction that a word stands for is drawn. To reach a certain fraction is thus to find a word
that stands for it. -/
theorem fraction_replays (drawn : UInt64) : Replays fraction [drawn] (unitFraction drawn) :=
  (word_replays drawn).thenPure unitFraction

/-! ## Numbers below a bound -/

/-- Every number below half words is drawn on a word. The word is the number, of which the lower
half is all. -/
theorem exists_halfNumber_replays {number : Nat} (fits : number < halfWords) :
    ∃ drawn, Replays halfNumber [drawn] number := by
  have same : (UInt64.ofNat number).toUInt32.toNat = number := by
    have short : number < 4294967296 := fits
    rw [UInt64.toNat_toUInt32, UInt64.toNat_ofNat_of_lt' (Nat.lt_trans short (by decide))]
    exact Nat.mod_eq_of_lt short
  have replays := (halfWord_replays (UInt64.ofNat number)).thenPure UInt32.toNat
  rw [same] at replays
  exact ⟨UInt64.ofNat number, replays⟩

/-- Every number below whole words is drawn on a word, which is the number. -/
theorem exists_wholeNumber_replays {number : Nat} (fits : number < wholeWords) :
    ∃ drawn, Replays wholeNumber [drawn] number := by
  have same : (UInt64.ofNat number).toNat = number := UInt64.toNat_ofNat_of_lt' fits
  have replays := (word_replays (UInt64.ofNat number)).thenPure UInt64.toNat
  rw [same] at replays
  exact ⟨UInt64.ofNat number, replays⟩

/-- Every number below a bound is the upper half of a multiple of the bound. The smallest
multiple that reaches the number in the upper half does not go past it, for the bound is less
than the number of words. -/
theorem exists_highHalf_eq {words place bound : Nat} (inside : place < bound)
    (narrow : bound < words) : ∃ drawn < words, highHalf words (drawn * bound) = place := by
  have positive : 0 < bound := Nat.zero_lt_of_lt inside
  let drawn := (place * words + (bound - 1)) / bound
  have split : bound * drawn + (place * words + (bound - 1)) % bound =
      place * words + (bound - 1) := Nat.div_add_mod _ _
  have below : (place * words + (bound - 1)) % bound < bound := Nat.mod_lt _ positive
  rw [Nat.mul_comm] at split
  have reached : place * words ≤ drawn * bound := by omega
  have passed : drawn * bound < (place + 1) * words := by
    rw [Nat.succ_mul]
    omega
  refine ⟨drawn, ?_, Nat.div_eq_of_lt_le reached passed⟩
  have short : drawn * bound < words * bound := by
    calc drawn * bound < (place + 1) * words := passed
      _ ≤ bound * words := Nat.mul_le_mul_right words inside
      _ = words * bound := Nat.mul_comm _ _
  exact Nat.lt_of_mul_lt_mul_right short

/-- Every number below a bound is made of some draws, if every number that words have is drawn on
a word. Where a second word is drawn, zero brings no carry. -/
theorem exists_scaled_replays {words place bound : Nat} {draw : Chance Script Nat}
    (each : ∀ number < words, ∃ drawn, Replays draw [drawn] number) (inside : place < bound)
    (narrow : bound < words) : ∃ drawn, Replays (scaled words draw bound) drawn place := by
  obtain ⟨number, short, chosen⟩ := exists_highHalf_eq inside narrow
  obtain ⟨drawn, first⟩ := each number short
  have positive : 0 < words := Nat.zero_lt_of_lt narrow
  by_cases further : words - bound < lowHalf words (number * bound)
  · have noCarry :
        ¬ words ≤ lowHalf words (number * bound) + highHalf words (0 * bound) := by
      have low : lowHalf words (number * bound) < words := Nat.mod_lt _ positive
      simp only [Nat.zero_mul, highHalf, Nat.zero_div, Nat.add_zero]
      omega
    obtain ⟨zero, second⟩ := each 0 positive
    refine ⟨[drawn] ++ ([zero] ++ []), first.bind ?_⟩
    simp only [further, ↓reduceIte]
    refine second.bind ?_
    simp only [noCarry, ↓reduceIte, chosen]
    exact .pure place
  · refine ⟨[drawn] ++ [], first.bind ?_⟩
    simp only [further, ↓reduceIte, chosen]
    exact .pure place

/-- Every number below a bound is chosen on some words. The bound decides whether halves or whole
words are drawn, and either will do. -/
theorem exists_below_replays {place bound : Nat} (inside : place < bound)
    (narrow : bound < wholeWords) : ∃ words, Replays (below bound) words place := by
  have inhabited : bound ≠ 0 := Nat.ne_zero_of_lt inside
  simp only [below, inhabited, ↓reduceIte]
  split
  · next short => exact exists_scaled_replays (fun _ => exists_halfNumber_replays) inside short
  · exact exists_scaled_replays (fun _ => exists_wholeNumber_replays) inside narrow

/-! ## Whether to go on -/

/-- The smallest fraction is zero, so a draw on the word zero is below every probability but
zero. -/
theorem unitFraction_zero : unitFraction 0 = 0 := by
  rfl

end Graft.Chance
