import Graft.Mutation.Journal

/-!
# What a computation comes to

A computation on a random source is judged for every state of the source at
once: whichever words it draws, it answers with a value of one kind or stops for
a cause of another. Nothing is said about the source it leaves, so the judgements
of the steps compose to a judgement of the whole.

The judgement is total. A cause that is excluded is never met, and a computation
all of whose causes are excluded always answers.
-/

namespace Graft

variable {ε σ α β : Type}

section Steps

variable {program : EStateM ε σ α} {next : α → EStateM ε σ β} {state reached : σ}

/-- After an answer the rest goes on from where it was reached. With the law for a stop this is all
that a sequence does. -/
theorem bind_of_ok {value : α} (answered : program state = .ok value reached) :
    (program >>= next) state = next value reached := by
  simp only [bind, EStateM.bind, answered]

/-- A computation that answers has answered step by step, since a step that stops leaves no answer
to what follows. -/
theorem exists_of_bind_eq_ok {answer : β}
    (answered : (program >>= next) state = .ok answer reached) :
    ∃ value between, program state = .ok value between ∧
      next value between = .ok answer reached := by
  simp only [bind, EStateM.bind] at answered
  split at answered
  · next value between first => exact ⟨value, between, first, answered⟩
  · cases answered

/-- A computation that changes what another one finds has found what it changes. The state is the
one that the other computation reached. -/
theorem exists_of_map_eq_ok {program : EStateM ε σ (Option α)} {change : α → β} {result : β}
    (answered : (do return (← program).map change : EStateM ε σ (Option β)) state =
      .ok (some result) reached) :
    ∃ own, program state = .ok (some own) reached ∧ result = change own := by
  obtain ⟨found, between, first, rest⟩ := exists_of_bind_eq_ok answered
  cases found with
  | none => cases rest
  | some own =>
    cases rest
    exact ⟨own, first, rfl⟩

/-- There is no rest after a stop, and the state stays where it stopped. -/
theorem bind_of_error {cause : ε} (stopped : program state = .error cause reached) :
    (program >>= next) state = .error cause reached := by
  simp only [bind, EStateM.bind, stopped]

end Steps

/-- From every state the computation answers with a value of the one kind or stops for a
cause of the other kind. -/
def Ends (program : EStateM ε σ α) (answers : α → Prop) (stops : ε → Prop) : Prop :=
  ∀ state, match program state with
    | .ok value _ => answers value
    | .error cause _ => stops cause

namespace Ends

variable {answers : α → Prop} {stops : ε → Prop}

/-- A value at hand is the answer, from whatever state. -/
theorem pure {value : α} (answer : answers value) :
    Ends (Pure.pure value : EStateM ε σ α) answers stops :=
  fun _ => answer

/-- What is asked of a result is not asked where there is none. Judgements about optional results
have this as the case in which they are given up. -/
theorem nothing {result? : α → Option β} {holds : β → Prop} {value : α}
    (absent : result? value = none) :
    Ends (Pure.pure value : EStateM ε σ α)
      (fun answer => ∀ result, result? answer = some result → holds result) stops := by
  intro state result present
  rw [absent] at present
  cases present

/-- A cause at hand is why the computation stops, from whatever state. -/
theorem throw {cause : ε} (stop : stops cause) :
    Ends (MonadExcept.throw cause : EStateM ε σ α) answers stops :=
  fun _ => stop

/-- What follows a step may rely on the answer of the step. The causes are the same on both sides,
so that a sequence has no more of them than its parts. -/
theorem bind {program : EStateM ε σ α} {next : α → EStateM ε σ β} {between : α → Prop}
    {answers : β → Prop} (first : Ends program between stops)
    (rest : ∀ value, between value → Ends (next value) answers stops) :
    Ends (program >>= next) answers stops := by
  intro state
  have known := first state
  cases ended : program state with
  | ok value reached =>
    rw [ended] at known
    rw [bind_of_ok ended]
    exact rest value known reached
  | error cause reached =>
    rw [ended] at known
    rw [bind_of_error ended]
    exact known

/-- More answers and more causes may be allowed. A judgement is thus made once, as sharp as it can
be, and weakened where it is used. -/
theorem mono {program : EStateM ε σ α} {weaker : α → Prop} {more : ε → Prop}
    (ends : Ends program answers stops) (weakens : ∀ value, answers value → weaker value)
    (widens : ∀ cause, stops cause → more cause) : Ends program weaker more := by
  intro state
  have known := ends state
  cases ended : program state with
  | ok value reached =>
    rw [ended] at known
    exact weakens value known
  | error cause reached =>
    rw [ended] at known
    exact widens cause known

/-- Where a run from one state is seen to answer, and its value to pass a test, the value is also
of the kind that the computation is judged to answer with. -/
theorem exists_answer {program : EStateM ε σ α} (ends : Ends program answers stops) (state : σ)
    (passes : α → Bool)
    (seen : (match program state with
      | .ok value _ => passes value
      | .error _ _ => false) = true) :
    ∃ value reached, program state = .ok value reached ∧ passes value = true ∧ answers value := by
  have known := ends state
  cases ended : program state with
  | ok value reached =>
    rw [ended] at known seen
    exact ⟨value, reached, rfl, seen, known⟩
  | error cause reached =>
    rw [ended] at seen
    cases seen

/-- Where a run is seen to stop, and its cause to pass a test, there is such a cause. The run is
evaluated once, for the test, and not again for what it leaves behind. -/
theorem exists_cause (program : EStateM ε σ α) (state : σ) (passes : ε → Bool)
    (seen : (match program state with
      | .ok _ _ => false
      | .error cause _ => passes cause) = true) :
    ∃ cause reached, program state = .error cause reached ∧ passes cause = true := by
  cases ended : program state with
  | ok value reached =>
    rw [ended] at seen
    cases seen
  | error cause reached =>
    rw [ended] at seen
    exact ⟨cause, reached, rfl, seen⟩

/-- A computation that no cause stops answers. Being judged is then more than a judgement about
whatever happens to be answered. -/
theorem exists_ok {program : EStateM ε σ α} (ends : Ends program answers fun _ => False)
    (state : σ) : ∃ value reached, program state = .ok value reached ∧ answers value := by
  have known := ends state
  cases ended : program state with
  | ok value reached =>
    rw [ended] at known
    exact ⟨value, reached, rfl, known⟩
  | error cause reached =>
    rw [ended] at known
    exact known.elim

/-- Random choices of a trial end as they do by themselves; their faults are some of the causes that
stop the trial. -/
theorem chance {choice : Chance σ α} {faults : Fault → Prop} {stops : Stop ε → Prop}
    (ends : Ends choice answers faults) (widens : ∀ fault, faults fault → stops (.fault fault)) :
    Ends (Trial.chance choice : Trial ε σ α) answers stops := by
  intro journal
  have known := ends journal.source
  simp only [Trial.chance]
  cases ended : choice journal.source with
  | ok value source =>
    rw [ended] at known
    exact known
  | error fault source =>
    rw [ended] at known
    exact widens fault known

/-- An event is noted without fail, as a journal has no bound. -/
theorem note {event : Event} {stops : Stop ε → Prop} :
    Ends (Trial.note event : Trial ε σ Unit) (fun _ => True) stops :=
  fun _ => trivial

end Ends

namespace Chance

open Graft.Random

variable [Source σ] {stops : Fault → Prop}

/-- A word is drawn without fail, since a source never runs dry. -/
theorem word_ends : Ends (word : Chance σ UInt64) (fun _ => True) stops :=
  fun _ => trivial

/-- Half a word is drawn without fail, from the same source as a word. -/
theorem halfWord_ends : Ends (halfWord : Chance σ UInt32) (fun _ => True) stops :=
  fun _ => trivial

/-- A fraction is drawn without fail. Nothing is said of it here; the least draws and the greatest
are told apart where they matter. -/
theorem fraction_ends : Ends (fraction : Chance σ Float) (fun _ => True) stops :=
  Ends.bind word_ends fun _ _ => Ends.pure trivial

/-- Half a word is a number below that of half words, which is all that scaling it down needs. -/
theorem halfNumber_ends : Ends (halfNumber : Chance σ Nat) (· < halfWords) stops :=
  Ends.bind halfWord_ends fun drawn _ => Ends.pure drawn.toNat_lt

/-- A word is a number below that of whole words. Between the two widths this bound is the only
difference. -/
theorem wholeNumber_ends : Ends (wholeNumber : Chance σ Nat) (· < wholeWords) stops :=
  Ends.bind word_ends fun drawn _ => Ends.pure drawn.toNat_lt

/-- The upper half of a product stays below the bound, also with a carry from below: the
product and the further upper half together do not reach the bound in the upper half. -/
theorem highHalf_lt {words drawn further bound : Nat} (drawnFits : drawn < words)
    (furtherFits : further < words) (positive : 0 < bound) :
    highHalf words (drawn * bound) < bound ∧
      (words ≤ lowHalf words (drawn * bound) + highHalf words (further * bound) →
        highHalf words (drawn * bound) + 1 < bound) := by
  have furtherBelow : highHalf words (further * bound) < bound :=
    Nat.div_lt_of_lt_mul (Nat.mul_lt_mul_of_pos_right furtherFits positive)
  have split : words * highHalf words (drawn * bound) + lowHalf words (drawn * bound) =
      drawn * bound := Nat.div_add_mod _ _
  have reach : drawn * bound + bound ≤ words * bound := by
    rw [← Nat.succ_mul]
    exact Nat.mul_le_mul_right bound drawnFits
  refine ⟨Nat.div_lt_of_lt_mul (Nat.mul_lt_mul_of_pos_right drawnFits positive), fun carry => ?_⟩
  have room : words * (highHalf words (drawn * bound) + 1) < words * bound := by
    rw [Nat.mul_add, Nat.mul_one]
    omega
  exact Nat.lt_of_mul_lt_mul_left room

omit [Source σ] in
/-- A number below a positive bound is made of draws without fail, whichever words they are of. -/
theorem scaled_ends {words bound : Nat} {draw : Chance σ Nat} (positive : 0 < bound)
    (fits : Ends draw (· < words) stops) : Ends (scaled words draw bound) (· < bound) stops := by
  refine Ends.bind fits fun drawn drawnFits => ?_
  have first := (highHalf_lt drawnFits drawnFits positive).1
  dsimp only
  split
  · refine Ends.bind fits fun further furtherFits => ?_
    split
    · next carry => exact Ends.pure ((highHalf_lt drawnFits furtherFits positive).2 carry)
    · exact Ends.pure first
  · exact Ends.pure first

/-- A number below a positive bound is drawn without fail. Bounds that fit half a word and those
that do not are drawn from words of different widths. -/
theorem below_ends {bound : Nat} (positive : 0 < bound) :
    Ends (below bound : Chance σ Nat) (· < bound) stops := by
  have inhabited : bound ≠ 0 := Nat.pos_iff_ne_zero.mp positive
  simp only [below, inhabited, ↓reduceIte]
  split
  · exact scaled_ends positive halfNumber_ends
  · exact scaled_ends positive wholeNumber_ends

/-- A remainder by a positive modulus is drawn without fail. By zero there is none, and the choice
is a fault. -/
theorem remainder_ends {modulus : Nat} (positive : 0 < modulus) :
    Ends (remainder modulus : Chance σ Nat) (· < modulus) stops := by
  have inhabited : modulus ≠ 0 := Nat.pos_iff_ne_zero.mp positive
  simp only [remainder, inhabited, ↓reduceIte]
  exact Ends.bind wholeNumber_ends fun drawn _ => Ends.pure (Nat.mod_lt _ positive)

/-- A place in a list is drawn without fail; of an empty list it is the first one, for which nothing
has to be drawn. -/
theorem position_ends (length : Nat) :
    Ends (position length : Chance σ Nat) (· < max length 1) stops := by
  unfold position
  split
  · exact Ends.pure (by omega)
  · next inhabited =>
    exact (below_ends (Nat.pos_of_ne_zero inhabited)).mono (fun _ inside => by omega)
      fun _ stop => stop

end Chance

/-- A fraction is drawn within a trial without fail, so that no cause has to be given where only
fractions are drawn. -/
theorem Trial.fraction_ends [Random.Source σ] {stops : Stop ε → Prop} :
    Ends (Trial.chance Chance.fraction : Trial ε σ Float) (fun _ => True) stops := by
  have drawn : Ends (Chance.fraction : Chance σ Float) (fun _ => True) (fun _ => False) :=
    Chance.fraction_ends
  exact Ends.chance drawn fun _ impossible => impossible.elim

end Graft
