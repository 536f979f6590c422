import Graft.Mutation.Errand
import Graft.Proofs.Agreement
import Graft.Proofs.Mutation.Request
import Graft.Proofs.Sharing.Course
import Mathlib.Logic.Function.Basic

/-!
# What a mutator's errands come to

Among others a mutator does what it does by itself. To generate a sample takes one
trial. A request looks at the corpus once for every attempt; whatever its looks have
found, it ends as a request does for which the corpus is known to be so at those
moments. So all that is known of requests whose corpus may change between attempts
holds of requests among others.

An errand of a mutator does nothing to the files, and only to create a context does
anything to the corpus.
-/

namespace Graft

open Graft.Random

variable {ε σ α β : Type}

/-! ## Trials -/

/-- Whatever has been noted before it, the trial ends with this result, and its source is then
this one. -/
def Trial.EndsAs (program : Trial ε σ α) (source : σ) (result : Except (Stop ε) α)
    (reached : σ) : Prop :=
  ∀ events, match program { source, events } with
    | .ok value journal => result = .ok value ∧ reached = journal.source
    | .error stop journal => result = .error stop ∧ reached = journal.source

namespace Trial.EndsAs

variable {program : Trial ε σ α} {next : α → Trial ε σ β} {source between reached : σ}

/-- A value at hand is how a trial ends, and its source is the one that it started with. -/
theorem pure (value : α) :
    (Pure.pure value : Trial ε σ α).EndsAs source (.ok value) source :=
  fun _ => ⟨rfl, rfl⟩

/-- A trial goes on from its first step, with the source that the step has reached and whatever it
has noted. -/
theorem bind {value : α} {result : Except (Stop ε) β}
    (first : program.EndsAs source (.ok value) between)
    (rest : (next value).EndsAs between result reached) :
    (program >>= next).EndsAs source result reached := by
  intro events
  have known := first events
  simp only [Bind.bind, EStateM.bind]
  cases ended : program { source, events } with
  | ok other journal =>
    rw [ended] at known
    obtain ⟨⟨⟩, rfl⟩ := known
    exact rest journal.events
  | error stop journal =>
    rw [ended] at known
    cases known.1

/-- A trial stops with its first step, and then nothing of the rest is drawn. -/
theorem bind_error {stop : Stop ε} (first : program.EndsAs source (.error stop) reached) :
    (program >>= next).EndsAs source (.error stop) reached := by
  intro events
  have known := first events
  simp only [Bind.bind, EStateM.bind]
  cases ended : program { source, events } with
  | ok other journal =>
    rw [ended] at known
    cases known.1
  | error cause journal =>
    rw [ended] at known
    obtain ⟨⟨⟩, rfl⟩ := known
    exact ⟨rfl, rfl⟩

/-- The end of a trial is of the kind that all its ends are of. What has been noted before is left
open, so that a journal without events shows it. -/
theorem of_ends {result : Except (Stop ε) α} {answers : α → Prop} {stops : Stop ε → Prop}
    (endsAs : program.EndsAs source result reached) (ends : Ends program answers stops) :
    (∀ value, result = .ok value → answers value) ∧
      ∀ stop, result = .error stop → stops stop := by
  have known := endsAs #[]
  have kind := ends { source }
  cases ended : program { source, events := #[] } with
  | ok value journal =>
    rw [ended] at known kind
    obtain ⟨rfl, -⟩ := known
    exact ⟨fun _ same => Except.ok.inj same ▸ kind, nofun⟩
  | error stop journal =>
    rw [ended] at known kind
    obtain ⟨rfl, -⟩ := known
    exact ⟨nofun, fun _ same => Except.error.inj same ▸ kind⟩

end Trial.EndsAs

/-- A trial that pays no heed to what has been noted ends among others as it does by itself. -/
theorem Errand.endsAs_of_comes_trial {program : Trial ε σ α} (heedless : Agree Eq program program)
    {source reached : σ} {deeds : List Deed} {result : Except (Stop ε) α}
    (comes : (Errand.trial program).Comes source deeds result reached) :
    program.EndsAs source result reached := by
  intro events
  have known := Errand.comes_trial.mp comes
  have same := heedless { source } { source, events } rfl
  cases alone : program { source } with
  | ok value journal =>
    rw [alone] at known same
    cases noted : program { source, events } with
    | ok other final =>
      rw [noted] at same
      obtain ⟨-, rfl, rfl⟩ := known
      exact ⟨congrArg _ same.1, same.2⟩
    | error stop final => rw [noted] at same; exact same.elim
  | error stop journal =>
    rw [alone] at known same
    cases noted : program { source, events } with
    | ok other final => rw [noted] at same; exact same.elim
    | error cause final =>
      rw [noted] at same
      obtain ⟨-, rfl, rfl⟩ := known
      exact ⟨congrArg _ same.1, same.2⟩

namespace Mutator

/-! ## Deeds -/

section Avoiding

variable {forbidden : Access → Prop} (notes : ∀ event, ¬ forbidden (.note event))

include notes

/-- A trial only notes events, and takes no other access. -/
theorem avoids_trial (program : Trial MutationError σ α) :
    Errand.Avoids forbidden (Surroundings.amongOthers.trial program) :=
  Errand.Avoids.trial notes program

variable [Source σ] (looks : ¬ forbidden .look)

include looks

/-- Attempts only look at the corpus and note events. The induction is on those that are left, each
of which looks once. -/
theorem avoids_editWithin (engine : Engine) (request : Request) (attempts : Nat) :
    Errand.Avoids forbidden (editWithin (σ := σ) .amongOthers engine request attempts) := by
  induction attempts generalizing request with
  | zero => exact Errand.Avoids.pure _
  | succ attempts inductionHypothesis =>
    apply Errand.Avoids.bind (Errand.Avoids.ask looks)
    intro corpus
    apply Errand.Avoids.bind (avoids_trial notes _)
    intro outcome
    obtain ⟨next, succeeded⟩ := outcome
    cases succeeded with
    | false => exact inductionHypothesis next
    | true =>
      apply Errand.Avoids.bind (avoids_trial notes _)
      intro fraction
      dsimp only
      split
      · exact Errand.Avoids.pure _
      · exact inductionHypothesis next

/-- A request only looks at the corpus and notes events. What is shared is thus left alone by it. -/
theorem avoids_mutating (mutator : Mutator) :
    Errand.Avoids forbidden
      (mutator.mutating : Errand (Stop MutationError) σ (Mutator × Bytes)) := by
  have byEdits (counted : Mutator) (bound : Tree) : Errand.Avoids forbidden
      (mutateByEditsWithin (σ := σ) .amongOthers counted bound) := by
    apply Errand.Avoids.bind (avoids_editWithin notes looks _ _ _)
    intro edited
    dsimp only
    split
    · exact Errand.Avoids.pure _
    · exact Errand.Avoids.bind (avoids_trial notes _) fun _ => Errand.Avoids.pure _
  unfold mutating mutateWithin
  cases mutator.bound with
  | none => exact avoids_trial notes _
  | some bound =>
    apply Errand.Avoids.bind (avoids_trial notes _)
    intro fraction
    dsimp only
    split
    · apply Errand.Avoids.bind (avoids_trial notes _)
      intro grown
      cases grown with
      | some tree => exact Errand.Avoids.bind (avoids_trial notes _) fun _ => Errand.Avoids.pure _
      | none => exact byEdits _ bound
    · exact byEdits _ bound

end Avoiding

/-! ## Ends -/

variable [Source σ]

/-- An attempt pays no heed to what has been noted. It notes events of its own, but nothing reads
them. -/
theorem attempt_heedless (engine : Engine) (corpus : Corpus) (request : Request) :
    Agree Eq (attempt engine corpus request : Trial MutationError σ (Request × Bool))
      (attempt engine corpus request) := by
  unfold attempt
  apply Agree.bind (Agree.chance _)
  rintro fraction _ rfl
  dsimp only
  apply Agree.bind (Agree.chance _)
  rintro ⟨⟨tree, applied⟩, donors⟩ _ rfl
  cases applied with
  | false => exact Agree.bind (Agree.note _ _) fun _ _ _ => Agree.pure rfl
  | true => exact Agree.pure rfl

omit [Source σ] in
/-- Random choices among others end as they do by themselves, since they have a source of their
own. -/
theorem endsAs_of_comes_chance {choice : Chance σ α} {source reached : σ} {deeds : List Deed}
    {result : Except (Stop MutationError) α}
    (comes : Errand.Comes (Surroundings.amongOthers.trial (Trial.chance choice)) source deeds result
      reached) :
    (Trial.chance choice : Trial MutationError σ α).EndsAs source result reached :=
  Errand.endsAs_of_comes_trial (Agree.chance choice) comes

omit [Source σ] in
/-- An event is noted among others as it is by oneself. What the others note in between does not
come back to the trial. -/
theorem endsAs_of_comes_note {event : Event} {source reached : σ} {deeds : List Deed}
    {result : Except (Stop MutationError) Unit}
    (comes : Errand.Comes (Surroundings.amongOthers.trial (Trial.note event)) source deeds result
      reached) :
    (Trial.note event : Trial MutationError σ Unit).EndsAs source result reached := by
  have heedless : Agree Eq (Trial.note event : Trial MutationError σ Unit) (Trial.note event) :=
    fun _ _ same => ⟨rfl, same⟩
  exact Errand.endsAs_of_comes_trial heedless comes

/-- At every moment the corpus is the empty one, or what a look among the deeds has found. -/
def Found (corpus : Nat → Corpus) (deeds : List Deed) : Prop :=
  ∀ moment, corpus moment = {} ∨ ⟨.look, corpus moment⟩ ∈ deeds

/-- What has been found among some deeds has been found among more, at whatever moments these
are. -/
theorem Found.mono {corpus : Nat → Corpus} {deeds more : List Deed} (found : Found corpus deeds)
    (within : deeds ⊆ more) : Found corpus more :=
  fun moment => (found moment).imp_right fun member => within member

/-- What a look finds is the corpus at its moment. At the other moments it is what had been found
for them. -/
theorem Found.look {corpus : Nat → Corpus} {deeds : List Deed} (found : Found corpus deeds)
    (moment : Nat) (looked : Corpus) :
    Found (Function.update corpus moment looked) (⟨.look, looked⟩ :: deeds) := by
  intro other
  by_cases same : other = moment
  · subst same
    rw [Function.update_self]
    exact .inr List.mem_cons_self
  · rw [Function.update_of_ne same]
    exact (found other).imp_right fun member => List.mem_cons_of_mem _ member

/-- What attempts come to does not depend on the corpus at moments before them. -/
def Foretold (engine : Engine) (attempts : Nat) (request : Request) (source : σ)
    (deeds : List Deed) (result : Except (Stop MutationError) Request) (reached : σ) : Prop :=
  ∃ corpus, Found corpus deeds ∧
    ∀ known : Nat → Corpus, (∀ moment < attempts, known moment = corpus moment) →
      (edit engine known request attempts).EndsAs source result reached

/-- Attempts among others end as they do where the corpus is known to be what the looks have
found. The induction is on the attempts that are left; at other moments the corpus does not
matter. -/
theorem comes_editWithin (engine : Engine) (attempts : Nat) {request : Request}
    {source reached : σ} {deeds : List Deed} {result : Except (Stop MutationError) Request}
    (comes : Errand.Comes (editWithin .amongOthers engine request attempts) source deeds result
      reached) :
    Foretold engine attempts request source deeds result reached := by
  induction attempts generalizing request source deeds with
  | zero =>
    obtain ⟨rfl, rfl, rfl⟩ := Errand.comes_pure.mp comes
    exact ⟨fun _ => {}, fun _ => .inl rfl, fun _ _ => .pure _⟩
  | succ attempts inductionHypothesis =>
    obtain ⟨_, looked, -⟩ | ⟨now, start, _, more, looked, further, rfl⟩ :=
      Errand.comes_bind.mp comes
    · obtain ⟨_, _, ⟨⟩, -⟩ := Errand.comes_ask.mp looked
    obtain ⟨_, rfl, ⟨⟩, rfl⟩ := Errand.comes_ask.mp looked
    -- What is left after the look is foretold with the corpus that it has found.
    have foretold (corpus : Nat → Corpus) (found : Found corpus more)
        (ends : ∀ known : Nat → Corpus, known attempts = now →
          (∀ moment < attempts, known moment = corpus moment) →
            (edit engine known request (attempts + 1)).EndsAs start result reached) :
        Foretold engine (attempts + 1) request start (⟨.look, now⟩ :: more) result reached := by
      refine ⟨_, found.look attempts now, fun known same => ends known ?_ fun moment before => ?_⟩
      · rw [same attempts (Nat.lt_succ_self _), Function.update_self]
      · rw [same moment (Nat.lt_succ_of_lt before), Function.update_of_ne (Nat.ne_of_lt before)]
    obtain ⟨stop, attempted, rfl⟩ |
        ⟨⟨next, succeeded⟩, between, first, second, attempted, last, rfl⟩ :=
      Errand.comes_bind.mp further
    · refine foretold (fun _ => {}) (fun _ => .inl rfl) fun known same _ => ?_
      rw [edit_succ, same]
      exact .bind_error (Errand.endsAs_of_comes_trial (attempt_heedless _ _ _) attempted)
    have step := Errand.endsAs_of_comes_trial (attempt_heedless _ _ _) attempted
    cases succeeded with
    | false =>
      obtain ⟨corpus, found, ends⟩ := inductionHypothesis last
      refine foretold corpus (found.mono (List.subset_append_right ..)) fun known same before => ?_
      rw [edit_succ, same]
      exact .bind step (ends known before)
    | true =>
      obtain ⟨stop, drawn, rfl⟩ | ⟨fraction, _, third, fourth, drawn, goesOn, rfl⟩ :=
        Errand.comes_bind.mp last
      · refine foretold (fun _ => {}) (fun _ => .inl rfl) fun known same _ => ?_
        rw [edit_succ, same]
        exact .bind step (.bind_error (endsAs_of_comes_chance drawn))
      have draw := endsAs_of_comes_chance drawn
      split at goesOn
      · next enough =>
        obtain ⟨rfl, rfl, rfl⟩ := Errand.comes_pure.mp goesOn
        refine foretold (fun _ => {}) (fun _ => .inl rfl) fun known same _ => ?_
        rw [edit_succ, same]
        refine .bind step (.bind draw ?_)
        rw [if_pos enough]
        exact .pure next
      · next further =>
        obtain ⟨corpus, found, ends⟩ := inductionHypothesis goesOn
        refine foretold corpus (found.mono ?_) fun known same before => ?_
        · exact List.Subset.trans (List.subset_append_right third _)
            (List.subset_append_right first _)
        rw [edit_succ, same]
        refine .bind step (.bind draw ?_)
        rw [if_neg further]
        exact ends known before

/-- An answer by edits among others is one where the corpus is known to be what the looks have
found. Only the attempts look, so that the rest is as it is by oneself. -/
theorem comes_mutateByEditsWithin (mutator : Mutator) (bound : Tree) {source reached : σ}
    {deeds : List Deed} {result : Except (Stop MutationError) (Mutator × Bytes)}
    (comes : Errand.Comes (mutateByEditsWithin .amongOthers mutator bound) source deeds result
      reached) :
    ∃ corpus, Found corpus deeds ∧
      (mutator.mutateByEdits corpus bound).EndsAs source result reached := by
  obtain ⟨stop, edited, rfl⟩ | ⟨request, between, first, second, edited, last, rfl⟩ :=
    Errand.comes_bind.mp comes
  · obtain ⟨corpus, found, ends⟩ := comes_editWithin _ _ edited
    exact ⟨corpus, found, .bind_error (ends corpus fun _ _ => rfl)⟩
  obtain ⟨corpus, found, ends⟩ := comes_editWithin _ _ edited
  refine ⟨corpus, found.mono (List.subset_append_left ..), .bind (ends corpus fun _ _ => rfl) ?_⟩
  dsimp only at last ⊢
  split at last
  · next changed =>
    obtain ⟨rfl, rfl, rfl⟩ := Errand.comes_pure.mp last
    rw [if_pos changed]
    exact .pure _
  · next unchanged =>
    rw [if_neg unchanged]
    obtain ⟨stop, noted, rfl⟩ | ⟨_, _, _, _, noted, answered, rfl⟩ := Errand.comes_bind.mp last
    · exact .bind_error (endsAs_of_comes_note noted)
    · obtain ⟨rfl, rfl, rfl⟩ := Errand.comes_pure.mp answered
      exact .bind (endsAs_of_comes_note noted) (.pure _)

/-- A request among others ends as one does for which the corpus is known to be, at every moment,
what a look has found. -/
theorem comes_mutating {mutator : Mutator} {source reached : σ} {deeds : List Deed}
    {result : Except (Stop MutationError) (Mutator × Bytes)}
    (comes : Errand.Comes mutator.mutating source deeds result reached) :
    ∃ corpus, Found corpus deeds ∧
      (mutator.mutateAmid corpus).EndsAs source result reached := by
  unfold mutating mutateWithin at comes
  cases binds : mutator.bound with
  | none =>
    rw [binds] at comes
    refine ⟨fun _ => {}, fun _ => .inl rfl, ?_⟩
    rw [mutateAmid_of_unbound _ binds]
    exact Errand.endsAs_of_comes_trial (Agree.throw _) comes
  | some bound =>
    rw [binds] at comes
    have byEdits {source : σ} {deeds : List Deed} := @comes_mutateByEditsWithin σ _
      { mutator with tally := { mutator.tally with requests := mutator.tally.requests + 1 } }
      bound source reached deeds result
    simp only [mutateAmid_of_bound _ binds, binds]
    obtain ⟨stop, drawn, rfl⟩ | ⟨fraction, _, first, second, drawn, grows, rfl⟩ :=
      Errand.comes_bind.mp comes
    · exact ⟨fun _ => {}, fun _ => .inl rfl, .bind_error (endsAs_of_comes_chance drawn)⟩
    have draw := endsAs_of_comes_chance drawn
    simp only [binds] at grows byEdits
    split at grows
    · next regenerate =>
      obtain ⟨stop, grew, rfl⟩ | ⟨grown, _, third, fourth, grew, answers, rfl⟩ :=
        Errand.comes_bind.mp grows
      · refine ⟨fun _ => {}, fun _ => .inl rfl, .bind draw ?_⟩
        rw [if_pos regenerate]
        exact .bind_error (endsAs_of_comes_chance grew)
      have growth := endsAs_of_comes_chance grew
      cases grown with
      | none =>
        obtain ⟨corpus, found, ends⟩ := byEdits answers
        refine ⟨corpus, found.mono ?_, .bind draw ?_⟩
        · exact List.Subset.trans (List.subset_append_right third _)
            (List.subset_append_right first _)
        rw [if_pos regenerate]
        exact .bind growth ends
      | some tree =>
        refine ⟨fun _ => {}, fun _ => .inl rfl, .bind draw ?_⟩
        rw [if_pos regenerate]
        refine .bind growth ?_
        obtain ⟨stop, noted, rfl⟩ | ⟨_, _, _, _, noted, answered, rfl⟩ :=
          Errand.comes_bind.mp answers
        · exact .bind_error (endsAs_of_comes_note noted)
        · obtain ⟨rfl, rfl, rfl⟩ := Errand.comes_pure.mp answered
          exact .bind (endsAs_of_comes_note noted) (.pure _)
    · next keep =>
      obtain ⟨corpus, found, ends⟩ := byEdits grows
      refine ⟨corpus, found.mono (List.subset_append_right first _), .bind draw ?_⟩
      rw [if_neg keep]
      exact ends

/-! ## What is known of the ends -/

/-- A request without a bound tree is refused at once. It takes no access and draws nothing. -/
theorem mutating_of_unbound {mutator : Mutator} (unbound : mutator.bound = none) (source : σ) :
    (mutator.mutating : Errand (Stop MutationError) σ (Mutator × Bytes)) source =
      .done (.error (.error .nothingBound), source) := by
  simp only [mutating, mutateWithin, unbound]
  rfl

/-- A request among others that has a bound tree is served, with corpora that its looks have
found, or abandoned as it would be by itself. -/
theorem served_of_comes {mutator : Mutator} {bound : Tree} (binds : mutator.bound = some bound)
    {source reached : σ} {deeds : List Deed}
    {result : Except (Stop MutationError) (Mutator × Bytes)}
    (comes : Errand.Comes mutator.mutating source deeds result reached) :
    ∃ corpus, Found corpus deeds ∧
      (∀ answer, result = .ok answer → mutator.Served corpus bound answer) ∧
        ∀ stop, result = .error stop → mutator.engine.AbandonsAmid corpus bound stop := by
  obtain ⟨corpus, found, ends⟩ := comes_mutating comes
  exact ⟨corpus, found, ends.of_ends (mutateAmid_serves mutator corpus binds)⟩

/-- A request changes nothing that is shared, for it avoids every access that does. -/
theorem unchanging_of_comes {mutator : Mutator} {source reached : σ} {deeds : List Deed}
    {result : Except (Stop MutationError) (Mutator × Bytes)}
    (comes : Errand.Comes mutator.mutating source deeds result reached) :
    ∀ deed ∈ deeds, ¬ deed.access.Changes :=
  (avoids_mutating (fun _ => id) id mutator source).of_comesTo comes

/-- To generate a sample changes nothing that is shared. The sample is that of a growth of the
root symbol. -/
theorem grown_of_comes {mutator : Mutator} {source reached : σ} {deeds : List Deed}
    {result : Except (Stop MutationError) Bytes}
    (comes : Errand.Comes mutator.generating source deeds result reached) :
    (∀ deed ∈ deeds, ¬ deed.access.Changes) ∧
      (∀ sample, result = .ok sample → ∃ tree, sample = tree.toSample ∧
        mutator.engine.grammar.GrowsAt mutator.engine.root 0 tree) ∧
      ∀ stop, result = .error stop →
        ∃ fault, stop = .fault fault ∧ mutator.engine.grammar.Abandons fault := by
  have ends := mutator.generateSample_ends (σ := σ) { source }
  have known := Errand.comes_trial.mp comes
  refine ⟨(avoids_trial (fun _ => id) mutator.generateSample source).of_comesTo comes, ?_⟩
  cases ended : (mutator.generateSample : Trial MutationError σ Bytes) { source } with
  | ok value journal =>
    rw [ended] at ends known
    obtain ⟨-, rfl, -⟩ := known
    exact ⟨fun _ same => Except.ok.inj same ▸ ends, nofun⟩
  | error stop journal =>
    rw [ended] at ends known
    obtain ⟨-, rfl, -⟩ := known
    exact ⟨nofun, fun _ same => Except.error.inj same ▸ ends⟩

omit [Source σ] in
/-- To create a context takes one deed, if the sample is read at all. Reading draws nothing, so that
the source stays where it is. -/
theorem comes_creatingContext {mutator : Mutator} {sample : Bytes} {state reached : σ}
    {deeds : List Deed} {result : Except (Stop MutationError) Tree} :
    Errand.Comes (mutator.creatingContext sample) state deeds result reached ↔
      match mutator.engine.grammar.readSample sample with
      | .ok tree => (∃ size, deeds = [⟨.register tree, size⟩]) ∧ result = .ok tree ∧ reached = state
      | .error refusal =>
        deeds = [] ∧ result = .error (refusal.mapError .sample) ∧ reached = state := by
  unfold creatingContext
  cases mutator.engine.grammar.readSample sample with
  | error refusal => exact Errand.comes_throw
  | ok tree =>
    refine Errand.comes_bind.trans ?_
    constructor
    · rintro (⟨_, asked, -⟩ | ⟨_, _, _, _, asked, answered, rfl⟩)
      · obtain ⟨_, _, ⟨⟩, -⟩ := Errand.comes_ask.mp asked
      · obtain ⟨size, rfl, -, rfl⟩ := Errand.comes_ask.mp asked
        obtain ⟨rfl, rfl, rfl⟩ := Errand.comes_pure.mp answered
        exact ⟨⟨size, rfl⟩, rfl, rfl⟩
    · rintro ⟨⟨size, rfl⟩, rfl, rfl⟩
      exact .inr ⟨size, _, _, [], Errand.comes_ask.mpr ⟨size, rfl, rfl, rfl⟩,
        Errand.comes_pure.mpr ⟨rfl, rfl, rfl⟩, rfl⟩

end Mutator

end Graft
