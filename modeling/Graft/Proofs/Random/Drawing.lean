import Graft.Proofs.Outcome
import Mathlib.Data.Stream.Init

/-!
# Drawing

A computation gets from one state of its source to another by draws alone, of words and of half
words. What no draw takes away from a source, no computation does. Conditions of this kind are
followed through a computation step by step, several at once, together with the causes for which
it may stop; loops that only draws can end are the places where this needs an argument.

A source may settle: from so many draws on every word of it is of one kind. It still does so after
any draws, and sooner.
-/

namespace Graft

namespace Random.Source

variable {σ : Type} [Source σ]

/-- So many draws, each of a word or of half a word, lead from one state to another. -/
inductive Leads : Nat → σ → σ → Prop where
  | here (source : σ) : Leads 0 source source
  | word {drawn : Nat} {source final : σ} (rest : Leads drawn (Source.next64 source).2 final) :
      Leads (drawn + 1) source final
  | halfWord {drawn : Nat} {source final : σ} (rest : Leads drawn (Source.next32 source).2 final) :
      Leads (drawn + 1) source final

/-- Draws are made one after the other, and their numbers add up. The induction is on the draws that
are made first. -/
theorem Leads.trans {first second : Nat} {source between final : σ}
    (before : Leads first source between) (after : Leads second between final) :
    Leads (first + second) source final := by
  induction before with
  | here source => rwa [Nat.zero_add]
  | word rest inductionHypothesis =>
    rw [Nat.add_right_comm]
    exact .word (inductionHypothesis after)
  | halfWord rest inductionHypothesis =>
    rw [Nat.add_right_comm]
    exact .halfWord (inductionHypothesis after)

/-- The final state is drawn from the first one. -/
def Reaches (source final : σ) : Prop := ∃ drawn, Leads drawn source final

namespace Reaches

/-- Nothing needs to be drawn to stay. -/
theorem refl (source : σ) : Reaches source source := ⟨0, .here source⟩

/-- What is drawn from a state that is drawn is drawn. How many draws it takes is left out, so that
ways can be put together without counting. -/
theorem trans {source between final : σ} (before : Reaches source between)
    (after : Reaches between final) : Reaches source final := by
  obtain ⟨first, before⟩ := before
  obtain ⟨second, after⟩ := after
  exact ⟨first + second, before.trans after⟩

/-- A word is drawn, by one draw from the state before it. -/
theorem word (source : σ) : Reaches source (Source.next64 source).2 := ⟨1, .word (.here _)⟩

/-- Half a word is drawn, by one draw as well, although a source need not move as far for it. -/
theorem halfWord (source : σ) : Reaches source (Source.next32 source).2 := ⟨1, .halfWord (.here _)⟩

end Reaches

/-- From so many draws on every word is of one kind. -/
def Settles (kind : UInt64 → Prop) (words : Nat) (source : σ) : Prop :=
  ∀ drawn state, Leads drawn source state → words ≤ drawn → kind (Source.next64 state).1

namespace Settles

variable {kind : UInt64 → Prop} {words : Nat} {source : σ}

/-- A source that has settled yields a word of the kind: no draw needs to be waited for. -/
theorem now (settles : Settles kind 0 source) : kind (Source.next64 source).1 :=
  settles 0 source (.here source) (Nat.le_refl 0)

/-- To settle sooner is to settle, for what is drawn later than the later bound is drawn later than
the sooner one. -/
theorem mono {fewer : Nat} (settles : Settles kind fewer source) (le : fewer ≤ words) :
    Settles kind words source :=
  fun drawn state leads enough => settles drawn state leads (Nat.le_trans le enough)

/-- After a word the source settles a draw sooner. Every state that is drawn from there has been
drawn with one draw more from the source before. -/
theorem word (settles : Settles kind words source) :
    Settles kind (words - 1) (Source.next64 source).2 :=
  fun drawn state leads enough => settles (drawn + 1) state (.word leads) (by omega)

/-- After half a word the source settles a draw sooner. Half words count as draws, though only whole
words are of a kind. -/
theorem halfWord (settles : Settles kind words source) :
    Settles kind (words - 1) (Source.next32 source).2 :=
  fun drawn state leads enough => settles (drawn + 1) state (.halfWord leads) (by omega)

end Settles

/-- A source settles within a limit. -/
def SettlesWithin (kind : UInt64 → Prop) (limit words : Nat) (source : σ) : Prop :=
  words < limit ∧ Settles kind words source

namespace SettlesWithin

variable {kind : UInt64 → Prop} {limit words : Nat} {source : σ}

/-- To settle sooner is to settle, also within the limit. -/
theorem mono {fewer : Nat} (held : SettlesWithin kind limit fewer source) (le : fewer ≤ words)
    (within : words < limit) : SettlesWithin kind limit words source :=
  ⟨within, held.2.mono le⟩

/-- The source still settles after a word. The bound need not be lowered, which leaves a condition
that every draw keeps. -/
theorem word (held : SettlesWithin kind limit words source) :
    SettlesWithin kind limit words (Source.next64 source).2 :=
  ⟨held.1, held.2.word.mono (Nat.sub_le words 1)⟩

/-- The source still settles after half a word, by the same bound. -/
theorem halfWord (held : SettlesWithin kind limit words source) :
    SettlesWithin kind limit words (Source.next32 source).2 :=
  ⟨held.1, held.2.halfWord.mono (Nat.sub_le words 1)⟩

/-- After a word of another kind the source settles sooner. The bound cannot be zero, since a source
that has settled would have given a word of the kind; so it goes down, and a loop that ends with a
word of the kind ends. -/
theorem sooner (held : SettlesWithin kind limit words source)
    (other : ¬ kind (Source.next64 source).1) :
    ∃ fewer, words = fewer + 1 ∧ SettlesWithin kind limit fewer (Source.next64 source).2 := by
  obtain ⟨within, settles⟩ := held
  cases words with
  | zero => exact absurd settles.now other
  | succ fewer => exact ⟨fewer, rfl, Nat.lt_of_succ_lt within, settles.word⟩

end SettlesWithin

/-! ## Words without an end -/

/-- Of endless words one is taken at a time. Half a word is the lower half of one. -/
instance : Source (Stream' UInt64) where
  next64 words := (words.head, words.tail)
  next32 words := (words.head.toUInt32, words.tail)

/-- Draws drop as many words, for a stream of words gives half a word by dropping a whole one. -/
theorem Leads.eq_drop {drawn : Nat} {words final : Stream' UInt64}
    (leads : Leads drawn words final) : final = words.drop drawn := by
  induction leads with
  | here words => rfl
  | word rest inductionHypothesis | halfWord rest inductionHypothesis =>
    rw [inductionHypothesis]
    exact Stream'.drop_tail'

/-- Words that end in one and the same word settle with it. Whoever draws beyond the first words
finds nothing but that word. -/
theorem settles_append_const {kind : UInt64 → Prop} (words : List UInt64) {word : UInt64}
    (settled : kind word) : Settles kind words.length (words ++ₛ Stream'.const word) := by
  intro drawn state leads enough
  obtain ⟨further, rfl⟩ := Nat.exists_eq_add_of_le enough
  have dropped : state = Stream'.const word := by
    rw [leads.eq_drop, ← Stream'.drop_drop, Stream'.drop_append_stream, Stream'.drop_const]
  rw [dropped]
  exact settled

end Random.Source

/-! ## Conditions that are kept -/

section Keeping

variable {ι ε σ α β : Type}

/-- Where the computation has led to the condition holds, and if it has stopped, then for a cause of
the kind. -/
def Leaves (holds : σ → Prop) (stops : ε → Prop) : EStateM.Result ε σ α → Prop
  | .ok _ reached => holds reached
  | .error cause reached => stops cause ∧ holds reached

/-- What a step leaves is left by the whole, if what follows the step leaves it as well. The step
may leave something stronger, which is all that the rest may start from. -/
theorem Leaves.bind {program : EStateM ε σ α} {next : α → EStateM ε σ β} {state : σ}
    {between holds : σ → Prop} {stops : ε → Prop} (first : Leaves between stops (program state))
    (weakens : ∀ reached, between reached → holds reached)
    (rest : ∀ value reached, program state = .ok value reached → between reached →
      Leaves holds stops (next value reached)) :
    Leaves holds stops ((program >>= next) state) := by
  cases ended : program state with
  | ok value reached =>
    rw [ended] at first
    rw [bind_of_ok ended]
    exact rest value reached ended first
  | error cause reached =>
    rw [ended] at first
    rw [bind_of_error ended]
    exact ⟨first.1, weakens reached first.2⟩

/-- From wherever one of the conditions holds the computation leads to where it still holds, and it
stops only for a cause of the kind. -/
def Sustains (program : EStateM ε σ α) (holds : ι → σ → Prop) (stops : ε → Prop) : Prop :=
  ∀ index state, holds index state → Leaves (holds index) stops (program state)

namespace Sustains

variable {holds : ι → σ → Prop} {stops : ε → Prop}

/-- A value at hand leaves everything as it is. -/
theorem pure (value : α) : Sustains (Pure.pure value : EStateM ε σ α) holds stops :=
  fun _ _ held => held

/-- A cause at hand leaves everything as it is. Conditions are kept also where a computation stops,
if the cause is among those that are allowed. -/
theorem throw {cause : ε} (stop : stops cause) :
    Sustains (MonadExcept.throw cause : EStateM ε σ α) holds stops :=
  fun _ _ held => ⟨stop, held⟩

/-- The conditions are kept from step to step. What follows a step may rely on its answer, which is
known from a judgement of the step for every state. -/
theorem bindEnds {program : EStateM ε σ α} {next : α → EStateM ε σ β} {between : α → Prop}
    (first : Sustains program holds stops) (known : Ends program between fun _ => True)
    (rest : ∀ value, between value → Sustains (next value) holds stops) :
    Sustains (program >>= next) holds stops := by
  intro index state held
  refine (first index state held).bind (fun _ kept => kept) fun value reached ended kept => ?_
  have answered := known state
  rw [ended] at answered
  exact rest value answered index reached kept

/-- The conditions are kept from step to step, where nothing of the answer of the first step matters
to the rest. -/
theorem bind {program : EStateM ε σ α} {next : α → EStateM ε σ β}
    (first : Sustains program holds stops) (rest : ∀ value, Sustains (next value) holds stops) :
    Sustains (program >>= next) holds stops :=
  fun index state held => (first index state held).bind (fun _ kept => kept)
    fun value reached _ kept => rest value index reached kept

/-- A computation with a choice keeps what both of its ways keep, each of them under its side of the
condition. -/
theorem ite {condition : Prop} [Decidable condition] {first second : EStateM ε σ α}
    (yes : condition → Sustains first holds stops)
    (no : ¬ condition → Sustains second holds stops) :
    Sustains (if condition then first else second) holds stops := by
  split
  · next holds => exact yes holds
  · next fails => exact no fails

/-- Where an answer has led to the conditions hold that held before. This is what a single run takes
from a judgement of all runs. -/
theorem ok {program : EStateM ε σ α} (sustains : Sustains program holds stops) {index : ι}
    {state reached : σ} {value : α} (ended : program state = .ok value reached)
    (held : holds index state) : holds index reached := by
  have kept := sustains index state held
  rw [ended] at kept
  exact kept

/-- Random choices of a trial keep what they keep by themselves. A trial hands them the source of
its journal and takes it back; the events are not touched. -/
theorem chance {choice : Chance σ α} {holds : ι → σ → Prop} {faults : Fault → Prop}
    {stops : Stop ε → Prop} (sustains : Sustains choice holds faults)
    (widens : ∀ fault, faults fault → stops (.fault fault)) :
    Sustains (Trial.chance choice : Trial ε σ α) (fun index journal => holds index journal.source)
      stops := by
  intro index journal held
  have kept := sustains index journal.source held
  simp only [Trial.chance]
  cases ended : choice journal.source with
  | ok value source =>
    rw [ended] at kept
    exact kept
  | error fault source =>
    rw [ended] at kept
    exact ⟨widens fault kept.1, kept.2⟩

/-- To make a number of draws keeps what each of the draws keeps, of which there are two at most. -/
theorem scaled {draw : Chance σ Nat} {holds : ι → σ → Prop} {stops : Fault → Prop}
    (kept : Sustains draw holds stops) (words bound : Nat) :
    Sustains (Chance.scaled words draw bound) holds stops := by
  refine .bind kept fun drawn => .ite (fun _ => ?_) fun _ => .pure _
  exact .bind kept fun further => .ite (fun _ => .pure _) fun _ => .pure _

/-- To note an event draws nothing, so the conditions, which are on the source, hold as before. -/
theorem note {event : Event} {holds : ι → σ → Prop} {stops : Stop ε → Prop} :
    Sustains (Trial.note event : Trial ε σ Unit) (fun index journal => holds index journal.source)
      stops :=
  fun _ _ held => held

end Sustains

end Keeping

/-! ## Choices -/

open Graft.Random

variable {ι σ : Type} [Source σ]

/-- A fraction is that of the next word. It is drawn without fail and moves the source on by a
word. -/
theorem Chance.fraction_eq (source : σ) :
    fraction source = .ok (unitFraction (Source.next64 source).1) (Source.next64 source).2 :=
  rfl

/-- A fraction that is drawn within a trial is that of the next word. The events noted so far are
left as they are. -/
theorem Trial.fraction_eq {ε : Type} (journal : Journal σ) :
    (Trial.chance Chance.fraction : Trial ε σ Float) journal =
      .ok (Chance.unitFraction (Source.next64 journal.source).1)
        { journal with source := (Source.next64 journal.source).2 } :=
  rfl

/-- No draw takes the conditions away, and whatever goes wrong about a choice by itself is a cause
of the kind. -/
structure Steady (holds : ι → σ → Prop) (stops : Fault → Prop) : Prop where
  word : ∀ index source, holds index source → holds index (Source.next64 source).2
  halfWord : ∀ index source, holds index source → holds index (Source.next32 source).2
  mishap : ∀ fault, fault ≠ .patienceExhausted → fault ≠ .depthUncountable → stops fault

namespace Steady

variable {holds : ι → σ → Prop} {stops : Fault → Prop} (steady : Steady holds stops)
include steady

/-- To draw from an empty range is a cause of the kind. It is one of the mishaps that a steady kind
takes in, and the two that it may leave out are different. -/
theorem emptyRange : stops .emptyRange :=
  steady.mishap _ nofun nofun

/-- To aim past an end is a cause of the kind, like every mishap but two. -/
theorem pastEnd (position length : Nat) : stops (.positionPastEnd position length) :=
  steady.mishap _ nofun nofun

/-- To draw a word keeps the conditions. It is one of the two draws that steady conditions are asked
to keep. -/
theorem drawWord : Sustains (Chance.word : Chance σ UInt64) holds stops :=
  steady.word

/-- To draw half a word keeps the conditions. It is the other one of the two draws. -/
theorem drawHalfWord : Sustains (Chance.halfWord : Chance σ UInt32) holds stops :=
  steady.halfWord

/-- To draw a fraction keeps the conditions: it takes one word, and the rest is a conversion that
draws nothing. -/
theorem fraction : Sustains (Chance.fraction : Chance σ Float) holds stops :=
  Sustains.bind steady.drawWord fun _ => .pure _

/-- To draw half a word as a number keeps the conditions. The reading of the bits as a number draws
nothing. -/
theorem halfNumber : Sustains (Chance.halfNumber : Chance σ Nat) holds stops :=
  Sustains.bind steady.drawHalfWord fun _ => .pure _

/-- To draw a word as a number keeps the conditions, by the same argument as for half of one. -/
theorem wholeNumber : Sustains (Chance.wholeNumber : Chance σ Nat) holds stops :=
  Sustains.bind steady.drawWord fun _ => .pure _

/-- To draw a number below a bound keeps the conditions. Whichever words the bound takes, there are
two of them at most, and without a bound there is a fault. -/
theorem below (bound : Nat) : Sustains (Chance.below bound : Chance σ Nat) holds stops := by
  refine .ite (fun _ => .bind (.throw steady.emptyRange) fun _ => ?_) fun _ => ?_
  all_goals
    exact .ite (fun _ => .scaled steady.halfNumber _ _) fun _ => .scaled steady.wholeNumber _ _

/-- To draw a remainder keeps the conditions. A word is drawn before the modulus is looked at, also
where the draw is a fault then. -/
theorem remainder (modulus : Nat) :
    Sustains (Chance.remainder modulus : Chance σ Nat) holds stops := by
  refine .bind steady.wholeNumber fun drawn => ?_
  exact .ite (fun _ => .bind (.throw steady.emptyRange) fun _ => .pure _) fun _ => .pure _

/-- To draw a place in a list keeps the conditions. The place in an empty list is the first, and
nothing is drawn for it. -/
theorem position (length : Nat) :
    Sustains (Chance.position length : Chance σ Nat) holds stops :=
  .ite (fun _ => .pure 0) fun _ => steady.below length

end Steady

end Graft
