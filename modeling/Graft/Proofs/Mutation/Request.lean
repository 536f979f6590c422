import Graft.Mutation.Mutator
import Graft.Proofs.Mutation.Rewrite
import Graft.Proofs.Mutation.Tally
import Mathlib.Logic.Relation

/-!
# What a request answers

A request with a bound tree answers with the sample of a tree that has grown from
the root symbol, or of one that the bound tree is turned into by edits one after
the other. Each edit draws on the corpus as it is at that moment. A request is
abandoned only where one of its growths or one of its attempts is, and it reports
no error.

The attempts that lead to an answer are listed, and the counts that a request
leaves are those of its attempts: every success is one edit, and no edit goes
uncounted.
-/

namespace Graft

/-- One tree is turned into another by edits, each with the corpus of some moment. -/
def Reaches (engine : Engine) (corpus : Nat → Corpus) : Tree → Tree → Prop :=
  Relation.ReflTransGen fun tree result =>
    ∃ moment strategy, Edits engine (corpus moment) strategy tree result

/-- What every edit keeps is kept by edits one after the other. The induction is on the edits, each
with the corpus of some moment. -/
theorem Reaches.keeps {engine : Engine} {corpus : Nat → Corpus} {tree result : Tree}
    (reaches : Reaches engine corpus tree result) (holds : Tree → Prop)
    (kept : ∀ moment strategy before after, Edits engine (corpus moment) strategy before after →
      holds before → holds after) (start : holds tree) : holds result := by
  induction reaches with
  | refl => exact start
  | tail _ edits inductionHypothesis =>
    obtain ⟨moment, strategy, edits⟩ := edits
    exact kept moment strategy _ _ edits inductionHypothesis

/-- Some fraction picks the strategy. One without weight is picked by none, as long as another one
has weight. -/
def Engine.Picks (engine : Engine) (strategy : Strategy) : Prop :=
  ∃ fraction, Strategy.pick fraction engine.settings.strategyWeights = strategy

/-- Attempts one after the other turn a tree into another one, each with the corpus of some
moment. Those that fail leave the tree as it is. -/
inductive Follows (engine : Engine) (corpus : Nat → Corpus) :
    List Attempted → Tree → Tree → Prop where
  /-- No attempt is made. -/
  | done (tree : Tree) : Follows engine corpus [] tree tree
  /-- The first attempt fails. -/
  | failed {trace : List Attempted} {tree result : Tree} (strategy : Strategy)
      (rest : Follows engine corpus trace tree result) :
      Follows engine corpus ((strategy, false) :: trace) tree result
  /-- The first attempt applies. -/
  | applied {trace : List Attempted} {tree next result : Tree} (strategy : Strategy)
      (picked : engine.Picks strategy) (moment : Nat)
      (applies : Applies engine (corpus moment) strategy tree next)
      (rest : Follows engine corpus trace next result) :
      Follows engine corpus ((strategy, true) :: trace) tree result

/-- Attempts reach by edits what they lead to: those that fail are left out. -/
theorem Follows.reaches {engine : Engine} {corpus : Nat → Corpus} {trace : List Attempted}
    {tree result : Tree} (follows : Follows engine corpus trace tree result) :
    Reaches engine corpus tree result := by
  induction follows with
  | done tree => exact .refl
  | failed strategy rest inductionHypothesis => exact inductionHypothesis
  | applied strategy picked moment applies rest inductionHypothesis =>
    exact .head ⟨moment, strategy, applies.edits⟩ inductionHypothesis

namespace Engine

/-- A request stops with the fault of an attempt on a tree that edits have led to. -/
def AbandonsAmid (engine : Engine) (corpus : Nat → Corpus) (tree : Tree)
    (stop : Stop MutationError) : Prop :=
  ∃ fault reached, stop = .fault fault ∧ Reaches engine corpus tree reached ∧
    engine.Abandons reached fault

/-- What stops a request after some edits stops it also as seen from before them, since it may have
got there by edits. -/
theorem AbandonsAmid.of_reaches {engine : Engine} {corpus : Nat → Corpus} {tree next : Tree}
    {stop : Stop MutationError} (abandons : engine.AbandonsAmid corpus next stop)
    (reaches : Reaches engine corpus tree next) : engine.AbandonsAmid corpus tree stop := by
  obtain ⟨fault, reached, stopped, further, abandons⟩ := abandons
  exact ⟨fault, reached, stopped, reaches.trans further, abandons⟩

end Engine

/-- A request is refreshed with the candidates of its tree, whatever it had before. What refilling
leaves in the lists is just what is collected. -/
theorem Request.refresh_eq (engine : Engine) (request : Request) :
    request.refresh engine = { request with sites := engine.sites request.working } := by
  rw [refresh, Engine.collectSites_eq]

namespace Mutator

open Graft.Random

/-- A mutator can be made if the grammar has the root symbol that the settings name. It has done
nothing yet, and no tree is bound to it. -/
theorem create_eq_ok_iff {grammar : Grammar} {settings : Settings} {patience : Nat}
    {mutator : Mutator} :
    create grammar settings patience = .ok mutator ↔
      ∃ root, grammar.symbol? settings.rootSymbol = some root ∧
        mutator = { engine := { grammar, settings, root, patience } } := by
  unfold create Engine.ofSettings?
  cases grammar.symbol? settings.rootSymbol with
  | none => simp
  | some root => simp [eq_comm]

variable {σ : Type} [Source σ]

/-- A request keeps the engine and the bound tree, and answers with the sample of a new growth
of the root symbol or of a tree that edits lead to. -/
def Answers (mutator : Mutator) (corpus : Nat → Corpus) (bound : Tree)
    (answer : Mutator × Bytes) : Prop :=
  answer.1.engine = mutator.engine ∧ answer.1.bound = some bound ∧
    ∃ tree, answer.2 = tree.toSample ∧
      (mutator.engine.grammar.GrowsAt mutator.engine.root 0 tree ∨
        Reaches mutator.engine corpus bound tree)

/-- How a request with a bound tree is served, and what it leaves of the mutator. -/
inductive Served (mutator : Mutator) (corpus : Nat → Corpus) (bound : Tree) :
    Mutator × Bytes → Prop where
  /-- A whole new tree is grown. No attempt is counted. -/
  | regenerated (tree : Tree)
      (grown : mutator.engine.grammar.GrowsAt mutator.engine.root 0 tree) :
      Served mutator corpus bound
        ({ mutator with
            tally := { mutator.tally with
              requests := mutator.tally.requests + 1
              regenerations := mutator.tally.regenerations + 1 } }, tree.toSample)
  /-- Attempts are made, as many as the settings grant unless one succeeds. They are all counted,
  and the request as an unproductive one if none of them succeeds. -/
  | edited (trace : List Attempted) (sites : Sites) (donors : List Candidate) (result : Tree)
      (follows : Follows mutator.engine corpus trace bound result)
      (granted : trace.length ≤ mutator.engine.settings.maxMutationAttempts)
      (exhausted : trace.any Prod.snd = false →
        trace.length = mutator.engine.settings.maxMutationAttempts) :
      Served mutator corpus bound
        ({ mutator with
            sites, donors
            tally := { mutator.tally.recordAll trace with
              requests := mutator.tally.requests + 1
              unproductive :=
                mutator.tally.unproductive + if trace.any Prod.snd then 0 else 1 } },
          result.toSample)

/-- A request that is served is answered. Of the counts nothing is said any more. -/
theorem Served.answers {mutator : Mutator} {corpus : Nat → Corpus} {bound : Tree}
    {answer : Mutator × Bytes} (served : mutator.Served corpus bound answer)
    (binds : mutator.bound = some bound) : mutator.Answers corpus bound answer := by
  cases served with
  | regenerated tree grown => exact ⟨rfl, binds, tree, rfl, .inl grown⟩
  | edited trace sites donors result follows _ _ =>
    exact ⟨rfl, binds, result, rfl, .inr follows.reaches⟩

/-- With attempts left, one is made with the corpus of the moment. If it succeeds, a draw
decides whether it was the last. -/
theorem edit_succ (engine : Engine) (corpus : Nat → Corpus) (request : Request)
    (attempts : Nat) :
    (edit engine corpus request (attempts + 1) : Trial MutationError σ Request) = (do
      let (next, succeeded) ← attempt engine (corpus attempts) request
      if succeeded then
        if engine.settings.continueProbability < (← Trial.chance Chance.fraction) then
          return next
      edit engine corpus next attempts) :=
  rfl

/-- A request without a bound tree is refused before anything is drawn, and is not counted. -/
theorem mutateAmid_of_unbound {mutator : Mutator} (corpus : Nat → Corpus)
    (unbound : mutator.bound = none) :
    (mutator.mutateAmid corpus : Trial MutationError σ (Mutator × Bytes)) =
      throw (.error .nothingBound) := by
  simp only [mutateAmid, mutateWithin, unbound]
  rfl

/-- A request with a bound tree is counted. A draw decides whether a new tree is grown for it,
and if none has grown it is answered by edits. -/
theorem mutateAmid_of_bound {mutator : Mutator} (corpus : Nat → Corpus) {bound : Tree}
    (binds : mutator.bound = some bound) :
    (mutator.mutateAmid corpus : Trial MutationError σ (Mutator × Bytes)) = (do
      let tally := { mutator.tally with requests := mutator.tally.requests + 1 }
      let fraction ← Trial.chance Chance.fraction
      let grown ←
        if fraction < mutator.engine.settings.regenerateProbability then
          Trial.chance (mutator.engine.grow mutator.engine.root 0)
        else pure none
      match grown with
      | some tree =>
        Trial.note .regenerated
        return ({ mutator with
          tally := { tally with regenerations := tally.regenerations + 1 } }, tree.toSample)
      | none => mutateByEdits { mutator with tally } corpus bound) := by
  simp only [mutateAmid, mutateWithin, binds]
  rfl

/-- An attempt edits the tree at hand or leaves it as it is, and counts which it was. The strategy
is one that the weights let a draw pick. -/
theorem attempt_ends (engine : Engine) (corpus : Corpus) (request : Request) :
    Ends (attempt engine corpus request : Trial MutationError σ (Request × Bool))
      (fun outcome => ∃ strategy, engine.Picks strategy ∧
        (outcome.2 = false ∧ outcome.1.working = request.working ∨
          outcome.2 = true ∧ Applies engine corpus strategy request.working outcome.1.working) ∧
        outcome.1.changed = (request.changed || outcome.2) ∧
        outcome.1.tally = request.tally.record strategy outcome.2)
      (fun stop => ∃ fault, stop = .fault fault ∧ engine.Abandons request.working fault) := by
  simp only [attempt, Request.refresh_eq]
  refine Ends.bind Trial.fraction_ends fun fraction _ => ?_
  refine Ends.bind (Ends.chance (Engine.apply_ends engine corpus _ request.working request.donors)
    fun fault stop => ⟨fault, rfl, stop⟩) ?_
  rintro ⟨edited, donors⟩ (rfl | ⟨result, rfl, applies⟩)
  · refine Ends.bind Ends.note fun _ _ => Ends.pure ?_
    exact ⟨_, ⟨fraction, rfl⟩, .inl ⟨rfl, rfl⟩, rfl, rfl⟩
  · exact Ends.pure ⟨_, ⟨fraction, rfl⟩, .inr ⟨rfl, applies⟩, rfl, rfl⟩

/-- What a request in progress comes to after at most so many attempts. They are counted, and
they are as many unless one succeeds. -/
def Proceeds (engine : Engine) (corpus : Nat → Corpus) (attempts : Nat)
    (request edited : Request) : Prop :=
  ∃ trace, Follows engine corpus trace request.working edited.working ∧
    edited.tally = request.tally.recordAll trace ∧
      edited.changed = (request.changed || trace.any Prod.snd) ∧
        trace.length ≤ attempts ∧ (trace.any Prod.snd = false → trace.length = attempts)

/-- A request proceeds from one that a first attempt has led to. The attempt is put in front of the
trace of the others. -/
theorem Proceeds.of_attempt {engine : Engine} {corpus : Nat → Corpus} {attempts moment : Nat}
    {request next edited : Request} {strategy : Strategy} {succeeded : Bool}
    (picked : engine.Picks strategy)
    (outcome : succeeded = false ∧ next.working = request.working ∨
      succeeded = true ∧ Applies engine (corpus moment) strategy request.working next.working)
    (changed : next.changed = (request.changed || succeeded))
    (tally : next.tally = request.tally.record strategy succeeded)
    (rest : Proceeds engine corpus attempts next edited) :
    Proceeds engine corpus (attempts + 1) request edited := by
  obtain ⟨trace, follows, counted, changedAfter, granted, exhausted⟩ := rest
  refine ⟨(strategy, succeeded) :: trace, ?_, ?_, ?_, ?_, ?_⟩
  · rcases outcome with ⟨rfl, same⟩ | ⟨rfl, applies⟩
    · exact .failed strategy (same ▸ follows)
    · exact .applied strategy picked moment applies follows
  · rw [counted, tally]
    rfl
  · rw [changedAfter, changed, List.any_cons, Bool.or_assoc]
  · exact Nat.succ_le_succ granted
  · intro none
    rw [List.any_cons, Bool.or_eq_false_iff] at none
    rw [List.length_cons, exhausted none.2]

/-- Attempts are made one after the other, until there have been enough or one that succeeds is the
last. The induction is on the attempts that are left. -/
theorem edit_ends (engine : Engine) (corpus : Nat → Corpus) (attempts : Nat)
    (request : Request) :
    Ends (edit engine corpus request attempts : Trial MutationError σ Request)
      (Proceeds engine corpus attempts request) (engine.AbandonsAmid corpus request.working) := by
  induction attempts generalizing request with
  | zero =>
    exact Ends.pure ⟨[], .done _, rfl, (Bool.or_false _).symm, Nat.le_refl 0, fun _ => rfl⟩
  | succ attempts inductionHypothesis =>
    rw [edit_succ]
    refine Ends.bind ((attempt_ends engine (corpus attempts) request).mono
      (fun _ outcome => outcome) fun stop known => ?_) ?_
    · obtain ⟨fault, rfl, abandons⟩ := known
      exact ⟨fault, request.working, rfl, .refl, abandons⟩
    · rintro ⟨next, succeeded⟩ ⟨strategy, picked, outcome, changed, tally⟩
      have step : Reaches engine corpus request.working next.working := by
        rcases outcome with ⟨-, same⟩ | ⟨-, applies⟩
        · rw [same]
          exact .refl
        · exact .single ⟨attempts, strategy, applies.edits⟩
      have rest : Ends (edit engine corpus next attempts : Trial MutationError σ Request)
          (Proceeds engine corpus (attempts + 1) request)
          (engine.AbandonsAmid corpus request.working) :=
        (inductionHypothesis next).mono
          (fun _ further => further.of_attempt picked outcome changed tally)
          fun _ abandons => abandons.of_reaches step
      cases succeeded with
      | false => exact rest
      | true =>
        refine Ends.bind Trial.fraction_ends fun fraction _ => ?_
        split
        · -- The success is the last attempt, whatever was granted.
          rcases outcome with ⟨failed, -⟩ | ⟨-, applies⟩
          · cases failed
          · exact Ends.pure ⟨[(strategy, true)],
              .applied strategy picked attempts applies (.done _), tally, changed,
              Nat.succ_le_succ (Nat.zero_le _), nofun⟩
        · exact rest

/-- A request that is answered by edits is served. It has been counted before, and the attempts are
counted with it. -/
theorem mutateByEdits_ends (mutator : Mutator) (corpus : Nat → Corpus) (bound : Tree) :
    Ends (({ mutator with
        tally := { mutator.tally with requests := mutator.tally.requests + 1 } }).mutateByEdits
          corpus bound : Trial MutationError σ (Mutator × Bytes))
      (mutator.Served corpus bound) (mutator.engine.AbandonsAmid corpus bound) := by
  refine Ends.bind (edit_ends mutator.engine corpus _ _) ?_
  rintro edited ⟨trace, follows, counted, changed, granted, exhausted⟩
  have served :=
    Served.edited trace edited.sites edited.donors edited.working follows granted exhausted
  rw [Tally.recordAll_requests] at counted
  rw [Bool.false_or] at changed
  rw [← changed, ← (mutator.tally.recordAll_ends trace).2] at served
  split
  · next productive =>
    rw [if_pos productive] at served
    rw [counted]
    exact Ends.pure served
  · next barren =>
    rw [if_neg barren] at served
    rw [counted]
    exact Ends.bind Ends.note fun _ _ => Ends.pure served

/-- A request with a bound tree is served by a new growth or by edits. It is abandoned only
where its growth is or one of its attempts. -/
theorem mutateAmid_serves (mutator : Mutator) (corpus : Nat → Corpus) {bound : Tree}
    (binds : mutator.bound = some bound) :
    Ends (mutator.mutateAmid corpus : Trial MutationError σ (Mutator × Bytes))
      (mutator.Served corpus bound) (mutator.engine.AbandonsAmid corpus bound) := by
  have byEdits := mutateByEdits_ends (σ := σ) mutator corpus bound
  rw [mutateAmid_of_bound corpus binds]
  simp only [binds] at byEdits ⊢
  refine Ends.bind Trial.fraction_ends fun fraction _ => ?_
  split
  · refine Ends.bind (Ends.chance (Grammar.grow_ends _ _ _) fun fault abandons =>
      ⟨fault, bound, rfl, .refl, Engine.abandons_of_grammar abandons⟩) fun grown known => ?_
    cases grown with
    | none => exact byEdits
    | some tree =>
      refine Ends.bind Ends.note fun _ _ => Ends.pure ?_
      rw [← binds]
      exact .regenerated tree (known tree rfl)
  · exact byEdits

/-- A request with a bound tree is answered by a new growth or by edits. How it is served tells
more, which is not always wanted. -/
theorem mutateAmid_ends (mutator : Mutator) (corpus : Nat → Corpus) {bound : Tree}
    (binds : mutator.bound = some bound) :
    Ends (mutator.mutateAmid corpus : Trial MutationError σ (Mutator × Bytes))
      (mutator.Answers corpus bound) (mutator.engine.AbandonsAmid corpus bound) :=
  (mutateAmid_serves mutator corpus binds).mono (fun _ served => served.answers binds)
    fun _ abandons => abandons

/-- A symbol grows in the end, unless growth is abandoned. The induction is on the patience, and
failures only leave events behind. -/
theorem growUntil_ends (engine : Engine) (symbol : Symbol) (failures patience : Nat) :
    Ends (growUntil engine symbol failures patience : Trial MutationError σ Tree)
      (fun tree => engine.grammar.GrowsAt symbol 0 tree)
      (fun stop => ∃ fault, stop = .fault fault ∧ engine.grammar.Abandons fault) := by
  induction patience generalizing failures with
  | zero => exact Ends.throw ⟨_, rfl, trivial⟩
  | succ patience inductionHypothesis =>
    refine Ends.bind (Ends.chance (Grammar.grow_ends _ _ _) fun fault abandons =>
      ⟨fault, rfl, abandons⟩) fun grown known => ?_
    cases grown with
    | some tree => exact Ends.pure (known tree rfl)
    | none =>
      dsimp only
      split
      · exact Ends.bind Ends.note fun _ _ => inductionHypothesis _
      · exact inductionHypothesis _

/-- A generated sample is that of a growth of the root symbol. No sample is made of a growth that
fails, for then another one is begun. -/
theorem generateSample_ends (mutator : Mutator) :
    Ends (mutator.generateSample : Trial MutationError σ Bytes)
      (fun sample => ∃ tree, sample = tree.toSample ∧
        mutator.engine.grammar.GrowsAt mutator.engine.root 0 tree)
      (fun stop => ∃ fault, stop = .fault fault ∧ mutator.engine.grammar.Abandons fault) :=
  Ends.bind (growUntil_ends mutator.engine mutator.engine.root 0 mutator.engine.patience)
    fun tree grows => Ends.pure ⟨tree, rfl, grows⟩

end Mutator

end Graft
