import Graft.Proofs.Double
import Graft.Proofs.Mutation.Drawing
import Graft.Proofs.Mutation.Inhabited
import Graft.Proofs.Mutation.RepetitionCopy
import Graft.Proofs.Mutation.Safety

/-!
# Runs that end

Two loops have no measure of their own: the growth of a run of elements, and the staging of
elements to be put in. They end at a draw, and what is grown within them draws as well and may take
the draws at which they would have ended. But every turn of theirs takes one word at least. On a
source that settles with words that end them they make no more turns than it takes to settle, and
one more, however deep they are nested.

Every other loop has its measure, and a run along children that are there ends on every source.
-/

namespace Graft

open Graft.Random

variable {σ : Type} [Source σ] {kind : UInt64 → Prop} {limit words : Nat} {source : σ}

/-- No draw keeps a source from settling. With each word it has one less to go. -/
theorem Random.Source.settlesWithin_steady {stops : Fault → Prop}
    (mishap : ∀ fault, fault ≠ .patienceExhausted → fault ≠ .depthUncountable → stops fault) :
    Steady (Source.SettlesWithin kind limit : Nat → σ → Prop) stops where
  word _ _ held := held.word
  halfWord _ _ held := held.halfWord
  mishap := mishap

/-! ## The two loops -/

/-- A run of elements ends with the patience that the source takes to settle with words that end
it. The induction is on the patience: a turn that does not end the run takes a word before the
source has settled. -/
theorem Grammar.growRun_leaves {probability : Float} {stops : Fault → Prop}
    (ends : ∀ word, kind word → probability < Chance.unitFraction word)
    {grow : Chance σ (Option Tree)}
    (grows : Sustains grow (Source.SettlesWithin kind limit) stops) {patience : Nat}
    (enough : words < patience) (held : Source.SettlesWithin kind limit words source) :
    Leaves (Source.SettlesWithin kind limit words) stops
      (growRun probability grow patience source) := by
  induction patience generalizing words source with
  | zero => cases enough
  | succ patience inductionHypothesis =>
    refine (grows words source held).bind (fun _ kept => kept) fun grown reached _ kept => ?_
    cases grown with
    | none => exact kept
    | some tree =>
      dsimp only
      rw [bind_of_ok (Chance.fraction_eq reached)]
      split
      · exact kept.word
      · next goesOn =>
        obtain ⟨fewer, rfl, sooner⟩ := kept.sooner fun settled => goesOn (ends _ settled)
        have later (final : σ) (further : Source.SettlesWithin kind limit fewer final) :
            Source.SettlesWithin kind limit (fewer + 1) final :=
          further.mono (Nat.le_succ fewer) held.1
        exact (inductionHypothesis (by omega) sooner).bind later
          fun _ final _ further => later final further

/-- Elements are staged with the patience that the source takes to settle with words that end it. As
with runs, every turn draws a word at least. -/
theorem Engine.stage_leaves {engine : Engine} {stops : Fault → Prop}
    (ends : ∀ word, kind word → engine.settings.repeatProbability < Chance.unitFraction word)
    {element : Symbol} {depth : Nat}
    (grows : Sustains (engine.grow element depth : Chance σ (Option Tree))
      (Source.SettlesWithin kind limit) stops) {patience : Nat} (enough : words < patience)
    (held : Source.SettlesWithin kind limit words source) :
    Leaves (Source.SettlesWithin kind limit words) stops
      (engine.stage element depth patience source) := by
  induction patience generalizing words source with
  | zero => cases enough
  | succ patience inductionHypothesis =>
    refine (grows words source held).bind (fun _ kept => kept) fun grown reached _ kept => ?_
    rw [bind_of_ok (goesOn_eq engine reached)]
    by_cases goesOn : engine.Continues reached
    · obtain ⟨fewer, rfl, sooner⟩ :=
        kept.sooner fun settled => Double.not_le_of_lt (ends _ settled) goesOn
      have later (final : σ) (further : Source.SettlesWithin kind limit fewer final) :
          Source.SettlesWithin kind limit (fewer + 1) final :=
        further.mono (Nat.le_succ fewer) held.1
      simp only [goesOn, decide_true, ↓reduceIte]
      exact (inductionHypothesis (by omega) sooner).bind later
        fun _ final _ further => later final further
    · simp only [goesOn, decide_false, Bool.false_eq_true, ↓reduceIte]
      exact kept.word

/-! ## Growth -/

namespace Grammar

variable {grammar : Grammar}

/-- The fraction of a word ends a run of elements. -/
def Outruns (grammar : Grammar) (word : UInt64) : Prop :=
  grammar.repeatProbability < Chance.unitFraction word

instance (grammar : Grammar) (word : UInt64) : Decidable (grammar.Outruns word) :=
  inferInstanceAs (Decidable (_ < _))

/-- On a source that settles growth is not abandoned for want of patience. Once it has settled every
decision ends the run. -/
theorem settling_steady {stops : Fault → Prop}
    (mishap : ∀ fault, fault ≠ .patienceExhausted → fault ≠ .depthUncountable → stops fault)
    (depths : Depth.greatest ≤ grammar.maxDepth → stops .depthUncountable)
    (ends : ∀ word, kind word → grammar.Outruns word) :
    grammar.Steady limit (Source.SettlesWithin kind limit : Nat → σ → Prop) stops where
  steps := Source.settlesWithin_steady mishap
  depths := depths
  runs grows _ _ held := growRun_leaves ends grows held.1 held

/-- With patience for more words than a source takes to settle, growth comes to an end, be it with
a tree or without, if the depths of the grammar can be counted. -/
theorem exists_grow (limited : grammar.maxDepth < Depth.greatest) {patience : Nat}
    (settles : Source.Settles grammar.Outruns words source) (enough : words < patience)
    (symbol : Symbol) (depth : Nat) :
    ∃ grown final drawn, grammar.grow patience symbol depth source = .ok grown final ∧
      Source.Leads drawn source final := by
  have steady : grammar.Steady patience
      (Source.SettlesWithin grammar.Outruns patience : Nat → σ → Prop)
      (· ≠ .patienceExhausted) :=
    settling_steady (fun _ patient _ => patient) (fun _ => nofun) fun _ settled => settled
  have kept := grow_sustains steady symbol depth words source ⟨enough, settles⟩
  have ends : Ends (grammar.grow patience symbol depth : Chance σ (Option Tree)) _
      grammar.Abandons := grow_ends patience symbol depth
  have known := ends source
  have drawn := grow_sustains (grammar.reaches_steady patience) symbol depth source source
    (.refl source)
  cases ended : grammar.grow patience symbol depth source with
  | ok grown final =>
    rw [ended] at drawn
    obtain ⟨drawn, leads⟩ := drawn
    exact ⟨grown, final, drawn, rfl, leads⟩
  | error fault final =>
    rw [ended] at kept known
    cases fault with
    | patienceExhausted => exact absurd rfl kept.1
    | depthUncountable => exact absurd limited (Nat.not_lt_of_le known)
    | _ => cases known

end Grammar

/-! ## Requests -/

namespace Engine

variable {engine : Engine}

/-- The fraction of a word ends a run of elements, be it grown or staged. -/
def Outruns (engine : Engine) (word : UInt64) : Prop :=
  engine.grammar.Outruns word ∧ engine.settings.repeatProbability < Chance.unitFraction word

instance (engine : Engine) (word : UInt64) : Decidable (engine.Outruns word) :=
  inferInstanceAs (Decidable (_ ∧ _))

/-- A cause other than a want of patience; it is a depth that cannot be counted only where the
grammar or the settings allow every depth. -/
def StopsInTime (engine : Engine) (fault : Fault) : Prop :=
  fault ≠ .patienceExhausted ∧ (fault = .depthUncountable →
    Depth.greatest ≤ engine.grammar.maxDepth ∨ Depth.greatest ≤ engine.settings.maxDepth)

/-- On a source that settles nothing is abandoned for want of patience. Besides growth that is asked
of staging only, as the other loops run along a list. -/
theorem settling_steady (engine : Engine) :
    engine.Steady (Source.SettlesWithin engine.Outruns engine.patience : Nat → σ → Prop)
      engine.StopsInTime where
  growth := Grammar.settling_steady
    (fun _ patient counted => ⟨patient, fun uncountable => absurd uncountable counted⟩)
    (fun unlimited => ⟨nofun, fun _ => .inl unlimited⟩) fun _ settled => settled.1
  depthsBelow unlimited := ⟨nofun, fun _ => .inr unlimited⟩
  stages grows _ _ held := stage_leaves (fun _ settled => settled.2) grows held.1 held

/-- With patience for more words than a source takes to settle, the staging of elements comes to an
end, if the depths of the grammar can be counted. -/
theorem exists_stage (limited : engine.grammar.maxDepth < Depth.greatest)
    (settles : Source.Settles engine.Outruns words source) (enough : words < engine.patience)
    (element : Symbol) (depth : Nat) :
    ∃ staged final, engine.stage element depth engine.patience source = .ok staged final := by
  have steady := engine.settling_steady (σ := σ)
  have kept := steady.stages (grow_sustains steady element depth) words source ⟨enough, settles⟩
  have known := stage_ends engine element depth engine.patience source
  cases ended : engine.stage element depth engine.patience source with
  | ok staged final => exact ⟨staged, final, rfl⟩
  | error fault final =>
    rw [ended] at kept known
    obtain ⟨patient, -⟩ : engine.StopsInTime fault := kept.1
    cases fault with
    | patienceExhausted => exact absurd rfl patient
    | depthUncountable => exact absurd limited (Nat.not_lt_of_le known)
    | _ => cases known

end Engine

namespace Mutator

/-- How a request with a bound tree ends, after so many draws. It is answered, or it is abandoned:
because invalid settings leave no node to choose, or because a tree has come to have more levels
than can be counted, where the settings let an edit reach all of them. -/
inductive Ended (mutator : Mutator) (corpus : Nat → Corpus) (bound : Tree) (source : σ) :
    EStateM.Result (Stop MutationError) (Journal σ) (Mutator × Bytes) → Prop where
  | answered (answer : Mutator × Bytes) (final : Journal σ) (drawn : Nat)
      (leads : Source.Leads drawn source final.source)
      (answers : mutator.Answers corpus bound answer) :
      Ended mutator corpus bound source (.ok answer final)
  | weightless (final : Journal σ) (drawn : Nat) (leads : Source.Leads drawn source final.source)
      (invalid : mutator.engine.settings.validate ≠ .ok ()) :
      Ended mutator corpus bound source (.error (.fault .noSelectableNode) final)
  | bottomless (final : Journal σ) (drawn : Nat) (leads : Source.Leads drawn source final.source)
      (reached : Tree) (unlimited : Depth.greatest ≤ mutator.engine.settings.maxDepth)
      (reaches : Reaches mutator.engine corpus bound reached)
      (deep : Depth.greatest ≤ reached.innerHeight) :
      Ended mutator corpus bound source (.error (.fault .depthUncountable) final)

/-- With patience for more words than a source takes to settle, a request with a bound tree comes to
an end. How it ends besides being answered is told by what may stop an attempt, patience
excepted. -/
theorem mutateAmid_ended {mutator : Mutator} (corpus : Nat → Corpus) {bound : Tree}
    (binds : mutator.bound = some bound)
    (limited : mutator.engine.grammar.maxDepth < Depth.greatest) {journal : Journal σ}
    (settles : Source.Settles mutator.engine.Outruns words journal.source)
    (enough : words < mutator.engine.patience) :
    mutator.Ended corpus bound journal.source (mutator.mutateAmid corpus journal) := by
  have kept := mutateAmid_sustains mutator.engine.settling_steady corpus words journal
    ⟨enough, settles⟩
  have drawn := mutateAmid_sustains mutator.engine.reaches_steady corpus journal.source journal
    (.refl _)
  have known := mutateAmid_ends mutator corpus binds journal
  cases ended : mutator.mutateAmid corpus journal with
  | ok answer final =>
    rw [ended] at drawn known
    obtain ⟨drawn, leads⟩ := drawn
    exact .answered answer final drawn leads known
  | error stop final =>
    rw [ended] at kept drawn known
    obtain ⟨-, drawn, leads⟩ := drawn
    obtain ⟨fault, reached, rfl, reaches, abandons⟩ := known
    obtain ⟨patient, uncounted⟩ : mutator.engine.StopsInTime fault := kept.1
    cases fault with
    | patienceExhausted => exact absurd rfl patient
    | depthUncountable =>
      have unlimited : Depth.greatest ≤ mutator.engine.settings.maxDepth :=
        (uncounted rfl).resolve_left (Nat.not_le_of_lt limited)
      have deep : Depth.greatest ≤ reached.innerHeight :=
        abandons.resolve_left (Nat.not_le_of_lt limited)
      exact .bottomless final drawn leads reached unlimited reaches deep
    | noSelectableNode =>
      refine .weightless final drawn leads fun valid => ?_
      have valid := Settings.validate_eq_ok_iff.mp valid
      rcases abandons.of_valid valid with impossible | ⟨impossible, -⟩
      · cases impossible
      · cases impossible
    | _ => cases abandons

end Mutator

/-! ## Runs along children -/

namespace Engine

/-- A run takes a word for each of its elements, of which there are no more than are available. It
ends on every source, therefore, settled or not. -/
theorem exists_runLength (engine : Engine) (available : Nat) (source : σ) :
    ∃ count ≤ available,
      engine.runLength available source = .ok count (Source.after source count) := by
  obtain ⟨count, counted, ended⟩ := runLength_eq engine available source
  have most : count ≤ available := by
    rw [← Nat.cast_le (α := ℕ∞), counted]
    exact min_le_left _ _
  exact ⟨count, most, ended⟩

/-- A deletion takes a word for each child that it deletes, and none where it is aimed past the end,
which is a fault. -/
theorem exists_deleteRun (engine : Engine) (position : Nat) (children : List Tree) (source : σ) :
    ∃ count ≤ children.length - position, engine.deleteRun position children source =
      if position ≤ children.length then
        .ok (withoutRun position count children) (Source.after source count)
      else .error (.positionPastEnd position children.length) source := by
  by_cases inside : position ≤ children.length
  · obtain ⟨count, -, within, ended⟩ := deleteRun_eq engine inside source
    exact ⟨count, by omega, ended.trans (if_pos inside).symm⟩
  · have none : children.length - position = 0 := by omega
    have past : children.length < position + 0 := by omega
    refine ⟨0, Nat.zero_le _, ?_⟩
    simp only [deleteRun, none, runLength, pure_bind, past, inside, ↓reduceIte]
    rfl

/-- A copy takes a word for each child that it deletes and for each that it copies. Both numbers are
bounded by the children that there are. -/
theorem exists_spliceRepetition (engine : Engine) (symbol : Symbol) {children : List Tree}
    (donor : Tree) {position : Nat} (inside : position ≤ children.length) (donorPosition : Nat)
    (delete : Bool) (source : σ) :
    ∃ deleted copied, deleted ≤ (if delete = true then children.length - position else 0) ∧
      copied ≤ donor.children.length - donorPosition ∧
      engine.spliceRepetition (.expansion symbol children) donor position donorPosition delete
          source =
        .ok (.changed (.expansion symbol (withRun position
          ((donor.children.drop donorPosition).take copied)
          (withoutRun position deleted children)))) (Source.after source (deleted + copied)) := by
  obtain ⟨deleted, copied, deletion, copying, ended⟩ :=
    spliceRepetition_eq engine symbol donor inside donorPosition delete source
  have mostCopied : copied ≤ donor.children.length - donorPosition := by
    rw [← Nat.cast_le (α := ℕ∞), copying]
    exact min_le_left _ _
  refine ⟨deleted, copied, ?_, mostCopied, ended⟩
  cases delete with
  | false => exact Nat.le_of_eq (Nat.cast_injective deletion)
  | true =>
    simp only [↓reduceIte] at deletion ⊢
    rw [← Nat.cast_le (α := ℕ∞), deletion]
    exact min_le_left _ _

/-- Growth and mutation end on every source that settles, which is one where from some draw on every
fraction is above both probabilities that runs go on with. If the depths of the grammar can be
counted and there is patience for more words than the source takes to settle, then growth ends after
finitely many draws, for every symbol and at every depth. So does a request with a bound tree,
whatever the settings, the tree and the corpus: it is answered if the settings are valid, unless
they set no limit to the depth that edits reach and a tree has come to have more levels than can be
counted; and if they are not valid it is answered or finds no node to choose. Runs that are deleted
or copied end on every source, with a word at most for each child. -/
theorem growth_and_mutation_end (engine : Engine)
    (limited : engine.grammar.maxDepth < Depth.greatest) :
    (∀ (words : Nat) (source : σ), Source.Settles engine.Outruns words source →
      words < engine.patience →
      (∀ symbol depth, ∃ grown final drawn, engine.grow symbol depth source = .ok grown final ∧
        Source.Leads drawn source final) ∧
      ∀ (mutator : Mutator) (corpus : Nat → Corpus) (bound : Tree) (events : Array Event),
        mutator.engine = engine → mutator.bound = some bound →
        mutator.Ended corpus bound source (mutator.mutateAmid corpus { source, events }) ∧
        (engine.settings.validate = .ok () → engine.settings.maxDepth < Depth.greatest →
          ∃ answer final drawn, mutator.mutateAmid corpus { source, events } = .ok answer final ∧
            Source.Leads drawn source final.source ∧ mutator.Answers corpus bound answer)) ∧
    ∀ source : σ,
      (∀ position children, ∃ count ≤ children.length - position,
        engine.deleteRun position children source =
          if position ≤ children.length then
            .ok (withoutRun position count children) (Source.after source count)
          else .error (.positionPastEnd position children.length) source) ∧
      (∀ available, ∃ count ≤ available,
        engine.runLength available source = .ok count (Source.after source count)) ∧
      ∀ symbol children donor position donorPosition delete, position ≤ children.length →
        ∃ deleted copied, deleted ≤ (if delete = true then children.length - position else 0) ∧
          copied ≤ donor.children.length - donorPosition ∧
          engine.spliceRepetition (.expansion symbol children) donor position donorPosition delete
              source =
            .ok (.changed (.expansion symbol (withRun position
              ((donor.children.drop donorPosition).take copied)
              (withoutRun position deleted children))))
              (Source.after source (deleted + copied)) := by
  refine ⟨fun words source settles enough => ⟨?growth, ?mutation⟩, fun source =>
    ⟨?deletion, ?measuring, ?copying⟩⟩
  case growth =>
    have grown : Source.Settles engine.grammar.Outruns words source :=
      fun drawn state leads late => (settles drawn state leads late).1
    exact Grammar.exists_grow limited grown enough
  case mutation =>
    rintro mutator corpus bound events rfl binds
    have settles : Source.Settles mutator.engine.Outruns words
        ({ source, events } : Journal σ).source := settles
    have ended := Mutator.mutateAmid_ended corpus binds limited settles enough
    refine ⟨ended, fun valid counted => ?_⟩
    generalize mutator.mutateAmid corpus { source, events } = result at ended
    cases ended with
    | answered answer final drawn leads answers => exact ⟨answer, final, drawn, rfl, leads, answers⟩
    | weightless final drawn leads invalid => exact absurd valid invalid
    | bottomless final drawn leads reached unlimited reaches deep =>
      exact absurd counted (Nat.not_lt_of_le unlimited)
  case deletion => exact fun position children => exists_deleteRun engine position children source
  case measuring => exact fun available => exists_runLength engine available source
  case copying =>
    exact fun symbol children donor position donorPosition delete inside =>
      exists_spliceRepetition engine symbol donor inside donorPosition delete source

/-- Words of which every one but the first has the greatest fraction. -/
def laggards : Stream' UInt64 := [0] ++ₛ Stream'.const 18446744073709551615

/-- A mutator of binary numerals with the numeral of zero bound to it. -/
def ofZero : Mutator where
  engine := ofDigits
  bound := some (numeral [48])

/-- Numerals grow, and the numeral of zero is mutated, on a source that settles after a word. -/
theorem growth_and_mutation_end_ofZero :
    ofZero.engine.grammar.maxDepth < Depth.greatest ∧
    Source.Settles ofZero.engine.Outruns 1 laggards ∧ 1 < ofZero.engine.patience ∧
    (∃ grown final drawn, ofZero.engine.grow ofZero.engine.root 0 laggards = .ok grown final ∧
      Source.Leads drawn laggards final) ∧
    ofZero.engine.settings.validate = .ok () ∧
    ∃ answer final drawn, ofZero.mutateAmid (fun _ => .unbounded) { source := laggards } =
      .ok answer final ∧ Source.Leads drawn laggards final.source := by
  have limited : ofZero.engine.grammar.maxDepth < Depth.greatest := by decide
  have outruns : ofZero.engine.Outruns 18446744073709551615 := by decide +kernel
  have settles : Source.Settles ofZero.engine.Outruns 1 laggards :=
    Source.settles_append_const [0] outruns
  have enough : 1 < ofZero.engine.patience := by decide
  have valid : ofZero.engine.settings.validate = .ok () := rfl
  have counted : ofZero.engine.settings.maxDepth < Depth.greatest := by decide
  have ends := growth_and_mutation_end (σ := Stream' UInt64) ofZero.engine limited
  obtain ⟨growth, mutation⟩ := ends.1 1 laggards settles enough
  obtain ⟨answer, final, drawn, ended, leads, -⟩ :=
    (mutation ofZero (fun _ => .unbounded) (numeral [48]) #[] rfl rfl).2 valid counted
  exact ⟨limited, settles, enough, growth _ _, valid, answer, final, drawn, ended, leads⟩

/-- Settings that are not valid: the weight of a digit is the negative of that of its numeral. -/
def ofCancelling : Mutator where
  engine :=
    { ofDigits with
      settings :=
        { Workbench.editing ⟨1, 1, 1⟩ with depthDecay := -1, strategyWeights := ⟨1, 0, 0, 0⟩ } }
  bound := some (numeral [48])

/-- A request that cannot choose a node does not return, though its source has settled from the
first word on. -/
theorem ofCancelling_does_not_return :
    Grammar.ofDeclarations Grammar.numerals.declarations = .ok ofCancelling.engine.grammar ∧
    ofCancelling.engine.grammar.maxDepth < Depth.greatest ∧
    ofCancelling.bound = some (numeral [48]) ∧
    ∃ source : Stream' UInt64, Source.Settles ofCancelling.engine.Outruns 0 source ∧
      ∃ final, ofCancelling.mutate .unbounded { source } =
        .error (.fault .noSelectableNode) final := by
  have outruns : ofCancelling.engine.Outruns 18446744073709551615 := by decide +kernel
  let source : Stream' UInt64 := Stream'.const 18446744073709551615
  refine ⟨Grammar.ofDeclarations_numerals, by decide, rfl, source,
    Source.settles_append_const [] outruns, ?_⟩
  obtain ⟨stop, final, ended, same⟩ := Ends.exists_cause (ofCancelling.mutate .unbounded) { source }
    (fun stop => decide (stop = .fault .noSelectableNode)) (by decide +kernel)
  exact ⟨final, of_decide_eq_true same ▸ ended⟩

end Engine

end Graft
