import Graft.Proofs.Mutation.Settling
import Graft.Proofs.Random.Boundary

/-!
# Probabilities that make a repetition endless

A grammar and settings are accepted only with a probability below one that a run of elements goes
on. Whether a run can then be ended is a question of the greatest fraction, which is the last double
below one. Either loop goes on as long as a fraction is at most the probability. So every accepted
probability can be ended, by the greatest fraction if by no other one, except for the greatest
fraction itself: with it no word ends a run, and no run ever comes to an end.
-/

namespace Graft

open Graft.Random Chance

/-! ## Accepted probabilities -/

/-- A grammar is accepted only with a probability from zero on and below one. The check is made
once, on the declarations, and the grammar keeps the probability. -/
theorem Grammar.probability_of_ofDeclarations {declarations : List Declaration} {grammar : Grammar}
    (built : ofDeclarations declarations = .ok grammar) :
    0 ≤ grammar.repeatProbability ∧ grammar.repeatProbability < 1 := by
  obtain ⟨between, -, -, kept⟩ := ofDraft_eq_ok_iff.mp built
  rwa [kept]

/-- Settings are accepted only with a probability from zero on and below one. The other
probabilities may be one, since no loop without a bound is left to them. -/
theorem Settings.probability_of_validate {settings : Settings}
    (valid : settings.validate = .ok ()) :
    0 ≤ settings.repeatProbability ∧ settings.repeatProbability < 1 := by
  have valid := validate_eq_ok_iff.mp valid
  have probable : isProbability settings.repeatProbability = true :=
    valid.probabilities ("repeat-probability", settings.repeatProbability) (by simp [probabilities])
  simp only [isProbability, Bool.and_eq_true, decide_eq_true_eq] at probable
  have one : (1 : Float).toModel.unpack =
      .finite .positive 4503599627370496 (-52) (by decide) := rfl
  refine ⟨probable.1, Double.lt_of_not_le ?_ valid.endsRuns⟩
  rw [one]
  rcases Double.cases_of_nonNegative probable.1 with
    ⟨sign, unpacked⟩ | unpacked | ⟨mantissa, exponent, inhabited, unpacked⟩ <;>
    rw [unpacked] <;> rfl

/-! ## Words that end a run -/

/-- The word ends a run of elements wherever it is drawn: after an element has grown, with this word
to come, the run is over. -/
def Grammar.EndsRun (grammar : Grammar) (word : UInt64) : Prop :=
  ∀ {σ : Type} [Source σ] (grow : Chance σ (Option Tree)) (source reached : σ) (tree : Tree)
    (patience : Nat), grow source = .ok (some tree) reached → (Source.next64 reached).1 = word →
      growRun grammar.repeatProbability grow (patience + 1) source =
        .ok (some [tree]) (Source.next64 reached).2

/-- The word ends the staging of elements wherever it is drawn: after an element has grown or failed
to, with this word to come, the staging is over. -/
def Engine.EndsStaging (engine : Engine) (word : UInt64) : Prop :=
  ∀ {σ : Type} [Source σ] (element : Symbol) (depth : Nat) (source reached : σ)
    (grown : Option Tree) (patience : Nat), engine.grow element depth source = .ok grown reached →
      (Source.next64 reached).1 = word →
        engine.stage element depth (patience + 1) source =
          .ok grown.toList (Source.next64 reached).2

/-- A word ends a run of elements exactly if its fraction is above the probability. It is enough to
look at one run, whose patience is for one element. -/
theorem Grammar.endsRun_iff {grammar : Grammar} {word : UInt64} :
    grammar.EndsRun word ↔ grammar.Outruns word := by
  constructor
  · intro ends
    -- A run whose patience is for one element does not answer if it goes on after it.
    have ended := ends (pure (some (.text []))) (Stream'.const word) (Stream'.const word) (.text [])
      0 rfl rfl
    have drawn : Chance.fraction (Stream'.const word) =
        .ok (unitFraction word) (Stream'.const word) := rfl
    by_contra goesOn
    rw [Outruns] at goesOn
    rw [growRun, pure_bind] at ended
    dsimp only at ended
    rw [bind_of_ok drawn, if_neg goesOn] at ended
    cases ended
  · intro outruns σ _ grow source reached tree patience grown next
    rw [Outruns, ← next] at outruns
    rw [growRun, bind_of_ok grown]
    dsimp only
    rw [bind_of_ok (Chance.fraction_eq reached), if_pos outruns]
    rfl

/-- A word ends the staging of elements exactly if its fraction is not at most the probability. Runs
and staging differ in the fraction that is equal to it. -/
theorem Engine.endsStaging_iff {engine : Engine} {word : UInt64} :
    engine.EndsStaging word ↔ ¬ unitFraction word ≤ engine.settings.repeatProbability := by
  constructor
  · intro ends goesOn
    -- A symbol with a number past the table fails to grow without a draw.
    let missing : Symbol := .plain engine.grammar.symbols.length ""
    have absent : engine.grow missing 0 (Stream'.const word) = .ok none (Stream'.const word) := by
      have past : engine.grammar.symbols[missing.id]? = none :=
        List.getElem?_eq_none (Nat.le_refl _)
      simp only [grow, Grammar.grow, past]
      rfl
    have ended := ends missing 0 (Stream'.const word) (Stream'.const word) none 0 absent rfl
    have continues : engine.Continues (Stream'.const word) := goesOn
    rw [stage, bind_of_ok absent, bind_of_ok (goesOn_eq engine _)] at ended
    simp only [continues, decide_true, ↓reduceIte] at ended
    cases ended
  · intro ends σ _ element depth source reached grown patience grows next
    have last : ¬ engine.Continues reached := by
      rw [Continues, next]
      exact ends
    rw [stage, bind_of_ok grows, bind_of_ok (goesOn_eq engine reached)]
    simp only [last, decide_false, Bool.false_eq_true, ↓reduceIte]
    rfl

/-! ## Loops that can be ended, and loops that cannot -/

/-- Whatever words have been drawn, some words may follow on which growth ends, for every symbol and
at every depth. -/
def Grammar.CanEnd (grammar : Grammar) : Prop :=
  ∀ words : List UInt64, ∃ further : Stream' UInt64, ∀ patience, words.length < patience →
    ∀ symbol depth, ∃ grown final,
      grammar.grow patience symbol depth (words ++ₛ further) = .ok grown final

/-- Whatever words have been drawn, some words may follow on which the staging of elements ends, for
every symbol and at every depth. -/
def Engine.CanEndStaging (engine : Engine) : Prop :=
  ∀ words : List UInt64, ∃ further : Stream' UInt64, ∀ patience, words.length < patience →
    ∀ element depth, ∃ staged final,
      { engine with patience }.stage element depth patience (words ++ₛ further) = .ok staged final

/-- A run of elements never ends with what has grown, whatever its element, its source and the
patience. -/
def Grammar.NeverEnds (grammar : Grammar) : Prop :=
  ∀ {σ : Type} [Source σ] (grow : Chance σ (Option Tree)) (patience : Nat),
    Ends (growRun grammar.repeatProbability grow patience) (· = none) fun _ => True

/-- The staging of elements never ends, whatever the element, the source and the patience. -/
def Engine.NeverEndsStaging (engine : Engine) : Prop :=
  ∀ {σ : Type} [Source σ] (element : Symbol) (depth patience : Nat),
    Ends (engine.stage element depth patience : Chance σ (List Tree)) (fun _ => False) fun _ => True

/-- Where a word ends a run of elements growth can be ended: the word follows for ever. -/
theorem Grammar.canEnd_of_outruns {grammar : Grammar}
    (limited : grammar.maxDepth < Depth.greatest) {word : UInt64} (outruns : grammar.Outruns word) :
    grammar.CanEnd := by
  intro words
  use Stream'.const word
  intro patience enough symbol depth
  obtain ⟨grown, final, -, ended, -⟩ :=
    exists_grow limited (Source.settles_append_const words outruns) enough symbol depth
  exact ⟨grown, final, ended⟩

/-- Where a word ends both loops the staging of elements can be ended: the word follows for ever. -/
theorem Engine.canEndStaging_of_outruns {engine : Engine}
    (limited : engine.grammar.maxDepth < Depth.greatest) {word : UInt64}
    (outruns : engine.Outruns word) : engine.CanEndStaging := by
  intro words
  use Stream'.const word
  intro patience enough element depth
  let patient : Engine := { engine with patience }
  have settles : Source.Settles patient.Outruns words.length (words ++ₛ Stream'.const word) :=
    Source.settles_append_const words outruns
  have limited : patient.grammar.maxDepth < Depth.greatest := limited
  exact exists_stage limited settles enough element depth

/-- A run that no word ends is never over. The induction is on the patience, which is all that can
stop it. -/
theorem Grammar.neverEnds_of_certain {grammar : Grammar}
    (certain : ∀ word, ¬ grammar.Outruns word) : grammar.NeverEnds := by
  intro σ _ grow patience
  induction patience with
  | zero => exact .throw trivial
  | succ patience inductionHypothesis =>
    have grows : Ends grow (fun _ => True) fun _ => True := by
      intro source
      cases grow source <;> trivial
    refine .bind grows fun first _ => ?_
    cases first with
    | none => exact .pure rfl
    | some tree =>
      have drawn : Ends (Chance.fraction : Chance σ Float)
          (fun fraction => ¬ grammar.repeatProbability < fraction) fun _ => True :=
        fun source => certain (Source.next64 source).1
      refine .bind drawn fun fraction goesOn => ?_
      rw [if_neg goesOn]
      refine .bind inductionHypothesis fun rest none => .pure ?_
      rw [none]
      rfl

/-- A staging that no word ends is never over. The induction is on the patience, as with a run,
though here not even an element that fails to grow ends the loop. -/
theorem Engine.neverEndsStaging_of_certain {engine : Engine}
    (certain : ∀ word, unitFraction word ≤ engine.settings.repeatProbability) :
    engine.NeverEndsStaging := by
  intro σ _ element depth patience
  induction patience with
  | zero => exact .throw trivial
  | succ patience inductionHypothesis =>
    have grows : Ends (engine.grow element depth : Chance σ (Option Tree)) (fun _ => True)
        fun _ => True :=
      (Grammar.grow_ends _ _ _).mono (fun _ _ => trivial) fun _ _ => trivial
    have drawn : Ends (engine.goesOn : Chance σ Bool) (· = true) fun _ => True :=
      fun source => decide_eq_true (certain (Source.next64 source).1)
    refine .bind grows fun grown _ => .bind drawn ?_
    rintro further rfl
    exact .bind inductionHypothesis fun _ impossible => impossible.elim

/-! ## The one exception -/

/-- Some word ends a run of elements exactly if the probability is not the greatest fraction. Of the
accepted ones it is the only one that no fraction exceeds. -/
theorem Grammar.exists_endsRun_iff {declarations : List Declaration} {grammar : Grammar}
    (built : ofDeclarations declarations = .ok grammar) :
    (∃ word, grammar.EndsRun word) ↔ (grammar.repeatProbability == greatestFraction) = false := by
  obtain ⟨nonNegative, below⟩ := probability_of_ofDeclarations built
  simp only [endsRun_iff]
  exact exists_lt_unitFraction_iff nonNegative below

/-- Some word ends the staging of elements exactly if the probability is not the greatest fraction.
At the greatest fraction every word goes on in both loops. -/
theorem Engine.exists_endsStaging_iff {engine : Engine}
    (valid : engine.settings.validate = .ok ()) :
    (∃ word, engine.EndsStaging word) ↔
      (engine.settings.repeatProbability == greatestFraction) = false := by
  obtain ⟨nonNegative, below⟩ := Settings.probability_of_validate valid
  simp only [endsStaging_iff, ← lt_unitFraction_iff nonNegative]
  exact exists_lt_unitFraction_iff nonNegative below

/-- Of the probabilities that are accepted only the greatest fraction makes a repetition endless. Of
every other probability with which a grammar is declared some word ends a run of elements, and
whatever words have been drawn, some may follow on which growth ends, if its depths can be counted.
The same holds of the staging of elements and the probability in the settings, if growth can be
ended. But if the probability is the greatest fraction, then no word ends the loop, and whatever is
drawn, no run of elements is ever over that has not failed, and no staging. -/
theorem endless_only_at_greatest (declarations : List Declaration) (engine : Engine) :
    (∀ grammar, Grammar.ofDeclarations declarations = .ok grammar →
      ((∃ word, grammar.EndsRun word) ↔
        (grammar.repeatProbability == greatestFraction) = false) ∧
      ((grammar.repeatProbability == greatestFraction) = false →
        grammar.maxDepth < Depth.greatest → grammar.CanEnd) ∧
      ((grammar.repeatProbability == greatestFraction) = true → grammar.NeverEnds)) ∧
    (engine.settings.validate = .ok () →
      ((∃ word, engine.EndsStaging word) ↔
        (engine.settings.repeatProbability == greatestFraction) = false) ∧
      (Grammar.ofDeclarations declarations = .ok engine.grammar →
        (engine.settings.repeatProbability == greatestFraction) = false →
        (engine.grammar.repeatProbability == greatestFraction) = false →
        engine.grammar.maxDepth < Depth.greatest → engine.CanEndStaging) ∧
      ((engine.settings.repeatProbability == greatestFraction) = true →
        engine.NeverEndsStaging)) := by
  constructor
  · intro grammar built
    have some := Grammar.exists_endsRun_iff built
    refine ⟨some, fun different limited => ?_, fun same => ?_⟩
    · obtain ⟨word, ends⟩ := some.mpr different
      exact Grammar.canEnd_of_outruns limited (Grammar.endsRun_iff.mp ends)
    · refine Grammar.neverEnds_of_certain fun word outruns => ?_
      rw [some.mp ⟨word, Grammar.endsRun_iff.mpr outruns⟩] at same
      cases same
  · intro valid
    have some := Engine.exists_endsStaging_iff valid
    have accepted := Settings.probability_of_validate valid
    refine ⟨some, fun built different growthDifferent limited => ?_, fun same => ?_⟩
    · have declared := Grammar.probability_of_ofDeclarations built
      have outruns : engine.Outruns 18446744073709551615 :=
        ⟨lt_greatestFraction declared.1 declared.2 growthDifferent,
          lt_greatestFraction accepted.1 accepted.2 different⟩
      exact Engine.canEndStaging_of_outruns limited outruns
    · refine Engine.neverEndsStaging_of_certain fun word => ?_
      by_contra ends
      rw [some.mp ⟨word, Engine.endsStaging_iff.mpr ends⟩] at same
      cases same

/-- A word ends runs of binary digits and the staging of more of them, and after any words both can
be ended. -/
theorem endless_only_at_greatest_digits :
    Grammar.ofDeclarations Grammar.numerals.declarations = .ok Engine.ofDigits.grammar ∧
    Engine.ofDigits.settings.validate = .ok () ∧
    (∃ word, Engine.ofDigits.grammar.EndsRun word) ∧ Engine.ofDigits.grammar.CanEnd ∧
    (∃ word, Engine.ofDigits.EndsStaging word) ∧ Engine.ofDigits.CanEndStaging := by
  have built : Grammar.ofDeclarations Grammar.numerals.declarations =
      .ok Engine.ofDigits.grammar := Grammar.ofDeclarations_numerals
  have valid : Engine.ofDigits.settings.validate = .ok () := rfl
  have growth : (Engine.ofDigits.grammar.repeatProbability == greatestFraction) = false := by
    decide +kernel
  have staging : (Engine.ofDigits.settings.repeatProbability == greatestFraction) = false := by
    decide +kernel
  have limited : Engine.ofDigits.grammar.maxDepth < Depth.greatest := by decide
  have only := endless_only_at_greatest Grammar.numerals.declarations Engine.ofDigits
  obtain ⟨grows, growthEnds, -⟩ := only.1 _ built
  obtain ⟨stages, stagingEnds, -⟩ := only.2 valid
  exact ⟨built, valid, grows.mpr growth, growthEnds growth limited, stages.mpr staging,
    stagingEnds built staging growth limited⟩

/-- The calls that declare runs of binary digits which go on with the greatest fraction. -/
def Grammar.endlessNumerals.declarations : List Declaration :=
  numerals.declarations ++ [.repeatProbability greatestFraction]

/-- Runs of binary digits which go on with the greatest fraction. -/
def Grammar.endlessNumerals : Grammar :=
  { numerals with repeatProbability := greatestFraction }

/-- An engine for binary numerals that stages elements with the greatest fraction. -/
def Engine.ofEndlessStaging : Engine :=
  { ofDigits with settings := { ofDigits.settings with repeatProbability := greatestFraction } }

/-- A grammar and settings with the greatest fraction are accepted, and no word ends their loops. -/
theorem accepted_and_endless :
    Grammar.ofDeclarations Grammar.endlessNumerals.declarations = .ok Grammar.endlessNumerals ∧
    (¬ ∃ word, Grammar.endlessNumerals.EndsRun word) ∧
    Engine.ofEndlessStaging.settings.validate = .ok () ∧
    ¬ ∃ word, Engine.ofEndlessStaging.EndsStaging word := by
  have built : Grammar.ofDeclarations Grammar.endlessNumerals.declarations =
      .ok Grammar.endlessNumerals := rfl
  have valid : Engine.ofEndlessStaging.settings.validate = .ok () := rfl
  have same : (greatestFraction == greatestFraction) = true := by decide +kernel
  refine ⟨built, fun some => ?_, valid, fun some => ?_⟩
  · have different := (Grammar.exists_endsRun_iff built).mp some
    exact Bool.false_ne_true (different.symm.trans same)
  · have different := (Engine.exists_endsStaging_iff valid).mp some
    exact Bool.false_ne_true (different.symm.trans same)

end Graft
