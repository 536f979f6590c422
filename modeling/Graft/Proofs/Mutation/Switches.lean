import Graft.Proofs.Double
import Graft.Proofs.Mutation.Accounting
import Graft.Proofs.Mutation.Inhabited
import Graft.Proofs.Mutation.Splicing

/-!
# What is switched off

A strategy or a mode is switched off by a weight that is zero or less. The walk over the bands
passes it over, and falls back on a band that it has entered, so that no draw leads to it as
long as some other one has weight. Whatever a mutator is asked, the counts of such a strategy
do not move and no repetition is edited in such a mode. If both modes that delete are switched
off an edit of a repetition keeps all of its children, and puts elements in at one place.
-/

namespace Graft

open Graft.Random

/-! ## What is picked -/

section Picking

variable {ω : Type} [Add ω] [LT ω] [LE ω] [DecidableLT ω] [DecidableLE ω] [OfNat ω 0]

/-- If some band has weight the choice that is made is that of a band with weight. The fallback is
not come to then. -/
theorem Weighted.offers_of_band {α : Type} {bands : List (α × ω)} {weighted : α × ω}
    (member : weighted ∈ bands) (above : ¬ weighted.2 ≤ 0) (target : ω) (unweighted : α) :
    Offers bands (band target unweighted bands) := by
  rcases band_offers target unweighted bands with offers | ⟨-, none⟩
  · exact offers
  · exact absurd (none weighted member) above

variable [Mul ω]

/-- The strategy that is picked has weight, if any has, whatever is drawn. -/
theorem Strategy.weighted_of_pick {weights : PerStrategy ω} {weighted : Strategy}
    (above : ¬ weights.get weighted ≤ 0) (fraction : ω) :
    ¬ weights.get (pick fraction weights) ≤ 0 := by
  have listed : (weighted, weights.get weighted) ∈ weights.bands := by
    cases weighted <;> simp [PerStrategy.bands, all]
  obtain ⟨weight, member, picked⟩ := Weighted.offers_of_band listed above
    (fraction * weights.total) .repeatSplice
  obtain ⟨strategy, -, entry⟩ := List.mem_map.mp member
  obtain ⟨rfl, rfl⟩ := Prod.mk.inj entry
  exact picked

/-- The entry of a mode. -/
def PerMode.get {α : Type} (table : PerMode α) : RepeatMode → α
  | .delete => table.delete
  | .deleteThenInsert => table.deleteThenInsert
  | .insert => table.insert

/-- The mode that is picked has weight, if any has, by the same walk. -/
theorem RepeatMode.weighted_of_pick {weights : PerMode ω} {weighted : RepeatMode}
    (above : ¬ weights.get weighted ≤ 0) (fraction : ω) :
    ¬ weights.get (pick fraction weights) ≤ 0 := by
  have bands : weights.bands =
      [.delete, .deleteThenInsert, .insert].map fun mode => (mode, weights.get mode) := rfl
  have listed : (weighted, weights.get weighted) ∈ weights.bands := by
    cases weighted <;> simp [bands]
  obtain ⟨weight, member, picked⟩ := Weighted.offers_of_band listed above
    (fraction * weights.total) .insert
  rw [bands] at member
  obtain ⟨mode, -, entry⟩ := List.mem_map.mp member
  obtain ⟨rfl, rfl⟩ := Prod.mk.inj entry
  exact picked

end Picking

/-! ## Edits of a repetition -/

/-- What an edit of a repetition is drawn to be: where, around which of the children, and in which
mode. -/
structure Editing where
  candidate : Candidate
  node : Tree
  position : Nat
  mode : RepeatMode

namespace Engine

variable {σ : Type} [Source σ]

/-- Draw an edit of a repetition, if there is one to choose. -/
def chooseEditing (engine : Engine) (sites : Sites) (tree : Tree) : Chance σ (Option Editing) := do
  match ← Candidate.select sites.repetitions with
  | none => return none
  | some candidate =>
    match tree.at? candidate.path with
    | none => return none
    | some node =>
      let position ← Chance.position node.children.length
      let mode := RepeatMode.pick (← Chance.fraction) engine.settings.repeatModes
      return some { candidate, node, position, mode }

/-- Make the edit that was drawn. -/
def performEditing (engine : Engine) (tree : Tree) : Option Editing → Chance σ Edited
  | none => return .unchanged tree
  | some { candidate, node, position, mode } => do
    let edited ← engine.editRepetition node candidate.depth position mode
    return edited.within tree candidate.path

/-- An edit of a repetition is drawn and then made. What the modes have a part in is thereby parted
from what is grown. -/
theorem repeatMutator_eq (engine : Engine) (sites : Sites) (tree : Tree) :
    (engine.repeatMutator sites tree : Chance σ Edited) =
      engine.chooseEditing sites tree >>= engine.performEditing tree := by
  rw [chooseEditing, bind_assoc]
  apply bind_congr
  rintro (_ | candidate)
  · rfl
  · dsimp only
    cases tree.at? candidate.path with
    | none => rfl
    | some node => simp only [bind_assoc, pure_bind, performEditing]

/-- An edit that is drawn is one of a node of the tree, at a position within its children. Its mode
has weight, if any has. Nothing is abandoned while it is drawn. -/
theorem chooseEditing_ends (engine : Engine) {weighted : RepeatMode}
    (above : ¬ engine.settings.repeatModes.get weighted ≤ 0) (sites : Sites) (tree : Tree)
    {stops : Fault → Prop} :
    Ends (engine.chooseEditing sites tree : Chance σ (Option Editing))
      (fun chosen => ∀ editing, chosen = some editing →
        tree.at? editing.candidate.path = some editing.node ∧
          editing.position ≤ editing.node.children.length ∧
            ¬ engine.settings.repeatModes.get editing.mode ≤ 0) stops := by
  refine Ends.bind (Candidate.select_ends _) fun selected _ => ?_
  cases selected with
  | none => exact Ends.nothing rfl
  | some candidate =>
    dsimp only
    split
    · exact Ends.nothing rfl
    · next node found =>
      refine Ends.bind (Chance.position_ends _) fun position drawn => ?_
      refine Ends.bind Chance.fraction_ends fun fraction _ => Ends.pure fun editing chosen => ?_
      have inside : position ≤ node.children.length := by omega
      cases chosen
      exact ⟨found, inside, RepeatMode.weighted_of_pick above fraction⟩

/-- A node of the tree keeps all its children in order, and the run is put in at one place among
them. -/
def PutsIn (run : List Tree) (tree result : Tree) : Prop :=
  ∃ path symbol before after, tree.at? path = some (.expansion symbol (before ++ after)) ∧
    tree.replaceAt? path (.expansion symbol (before ++ run ++ after)) = some result

/-- To put a run in behind a position is to put it in at one place. All the children that were there
are still there, in their order. -/
theorem putsIn_withRun {tree result : Tree} {path : Path} {symbol : Symbol} {children : List Tree}
    {position : Nat} {run : List Tree} (found : tree.at? path = some (.expansion symbol children))
    (replaced : tree.replaceAt? path (.expansion symbol (withRun position run children)) =
      some result) : PutsIn run tree result := by
  obtain ⟨before, after, rfl, put⟩ := exists_parting position run children
  rw [put] at replaced
  exact ⟨path, symbol, before, after, found, replaced⟩

/-- A node of the tree keeps all its children in order, and a run that is not empty is put in at
one place among them. -/
def Enlarges (tree result : Tree) : Prop :=
  ∃ run, run ≠ [] ∧ PutsIn run tree result

/-- An edit that only inserts enlarges a repetition, or is refused. It is refused for want of
growth, and then puts in nothing. -/
theorem performEditing_enlarges (engine : Engine) {tree : Tree} {editing : Editing}
    (found : tree.at? editing.candidate.path = some editing.node)
    (inside : editing.position ≤ editing.node.children.length) (inserts : editing.mode = .insert) :
    Ends (engine.performEditing tree (some editing) : Chance σ Edited)
      (fun edited => edited.Turns tree (Enlarges tree)) fun _ => True := by
  obtain ⟨candidate, node, position, mode⟩ := editing
  dsimp only at found inside inserts
  obtain rfl := inserts
  have refused (unedited : engine.editRepetition node candidate.depth position .insert =
      (pure (.unchanged node) : Chance σ Edited)) :
      Ends (engine.performEditing tree (some ⟨candidate, node, position, .insert⟩) :
          Chance σ Edited)
        (fun edited => edited.Turns tree (Enlarges tree)) fun _ => True := by
    rw [performEditing, unedited, pure_bind, Edited.within_unchanged found]
    exact Ends.pure .unchanged
  cases node with
  | text octets => exact refused rfl
  | expansion symbol children =>
    cases carried : symbol.element? with
    | none =>
      apply refused
      simp only [editRepetition, carried]
    | some element =>
      have placed : position ≤ children.length := inside
      refine Ends.bind ((editRepetition_ends engine carried candidate.depth placed .insert).mono
        (fun _ edited => edited) fun _ _ => trivial) fun edited known => ?_
      refine Ends.pure ((known.within found).mono ?_)
      rintro result ⟨node, ⟨count, staged, does, -, rfl⟩, replaced⟩
      obtain rfl := does.kept rfl
      rw [withoutRun_zero] at replaced
      exact ⟨staged, does.inserted rfl, putsIn_withRun found replaced⟩

/-- If the modes that delete are switched off an edit of a repetition enlarges it, or is refused.
The mode with weight that is left is the one that only inserts. -/
theorem repeatMutator_enlarges (engine : Engine) {weighted : RepeatMode}
    (above : ¬ engine.settings.repeatModes.get weighted ≤ 0)
    (noDeletion : engine.settings.repeatModes.delete ≤ 0)
    (noExchange : engine.settings.repeatModes.deleteThenInsert ≤ 0) (sites : Sites) (tree : Tree) :
    Ends (engine.repeatMutator sites tree : Chance σ Edited)
      (fun edited => edited.Turns tree (Enlarges tree)) fun _ => True := by
  rw [repeatMutator_eq]
  refine Ends.bind (chooseEditing_ends engine above sites tree) fun chosen known => ?_
  cases chosen with
  | none => exact Ends.pure .unchanged
  | some editing =>
    obtain ⟨found, inside, picked⟩ := known editing rfl
    refine performEditing_enlarges engine found inside ?_
    cases mode : editing.mode with
    | delete =>
      rw [mode] at picked
      exact absurd noDeletion picked
    | deleteThenInsert =>
      rw [mode] at picked
      exact absurd noExchange picked
    | insert => rfl

end Engine

/-! ## Counts -/

/-- An attempt with another strategy leaves the counts of a strategy alone, whether it succeeded or
not. -/
theorem Tally.attempts_record_of_ne (tally : Tally) {strategy other : Strategy}
    (different : other ≠ strategy) (succeeded : Bool) :
    (tally.record strategy succeeded).attempts.get other = tally.attempts.get other := by
  rw [record, PerStrategy.get_modify, if_neg different]

namespace Mutator

variable {σ : Type} [Source σ]

/-- An attempt is counted for a strategy with weight, if any has, since it is counted for the one
that was picked. -/
theorem attempt_weighted (engine : Engine) {weighted : Strategy}
    (above : ¬ engine.settings.strategyWeights.get weighted ≤ 0) (corpus : Corpus)
    (request : Request) :
    Ends (attempt engine corpus request : Trial MutationError σ (Request × Bool))
      (fun outcome => ∃ strategy, ¬ engine.settings.strategyWeights.get strategy ≤ 0 ∧
        outcome.1.tally = request.tally.record strategy outcome.2) fun _ => True := by
  simp only [attempt, Request.refresh_eq]
  refine Ends.bind Trial.fraction_ends fun fraction _ => ?_
  have picked := Strategy.weighted_of_pick above fraction
  refine Ends.bind (Ends.chance ((Engine.apply_ends engine corpus _ request.working
    request.donors).mono (fun _ _ => trivial) fun _ stop => stop) fun _ _ => trivial) ?_
  rintro ⟨⟨tree, applied⟩, donors⟩ -
  cases applied with
  | false => exact Ends.bind Ends.note fun _ _ => Ends.pure ⟨_, picked, rfl⟩
  | true => exact Ends.pure ⟨_, picked, rfl⟩

/-- Attempts leave the counts of a strategy that is switched off alone. The induction is on the
attempts that are left. -/
theorem edit_unmoved (engine : Engine) {weighted off : Strategy}
    (above : ¬ engine.settings.strategyWeights.get weighted ≤ 0)
    (switched : engine.settings.strategyWeights.get off ≤ 0) (corpus : Nat → Corpus)
    (attempts : Nat) (request : Request) :
    Ends (edit engine corpus request attempts : Trial MutationError σ Request)
      (fun edited => edited.tally.attempts.get off = request.tally.attempts.get off)
      fun _ => True := by
  induction attempts generalizing request with
  | zero => exact Ends.pure rfl
  | succ attempts inductionHypothesis =>
    rw [edit_succ]
    refine Ends.bind (attempt_weighted engine above (corpus attempts) request) ?_
    rintro ⟨next, succeeded⟩ ⟨strategy, picked, tally⟩
    have different : off ≠ strategy := by
      rintro rfl
      exact picked switched
    have unmoved : next.tally.attempts.get off = request.tally.attempts.get off := by
      rw [tally, Tally.attempts_record_of_ne _ different]
    have rest : Ends (edit engine corpus next attempts : Trial MutationError σ Request)
        (fun edited => edited.tally.attempts.get off = request.tally.attempts.get off)
        fun _ => True :=
      (inductionHypothesis next).mono (fun _ further => further.trans unmoved) fun _ stop => stop
    cases succeeded with
    | false => exact rest
    | true =>
      refine Ends.bind Trial.fraction_ends fun fraction _ => ?_
      split
      · exact Ends.pure unmoved
      · exact rest

/-- A request leaves the counts of a strategy that is switched off alone. A tree that is grown
afresh takes no attempt. -/
theorem mutateAmid_unmoved (mutator : Mutator) {weighted off : Strategy}
    (above : ¬ mutator.engine.settings.strategyWeights.get weighted ≤ 0)
    (switched : mutator.engine.settings.strategyWeights.get off ≤ 0) (corpus : Nat → Corpus) :
    Ends (mutator.mutateAmid corpus : Trial MutationError σ (Mutator × Bytes))
      (fun answer => answer.1.tally.attempts.get off = mutator.tally.attempts.get off)
      fun _ => True := by
  cases binds : mutator.bound with
  | none =>
    rw [mutateAmid_of_unbound corpus binds]
    exact Ends.throw trivial
  | some bound =>
    have byEdits : Ends (({ mutator with
        tally := { mutator.tally with requests := mutator.tally.requests + 1 } }).mutateByEdits
          corpus bound : Trial MutationError σ (Mutator × Bytes))
        (fun answer => answer.1.tally.attempts.get off = mutator.tally.attempts.get off)
        fun _ => True := by
      refine Ends.bind (edit_unmoved mutator.engine above switched corpus _ _) fun edited same => ?_
      split
      · exact Ends.pure same
      · exact Ends.bind Ends.note fun _ _ => Ends.pure same
    rw [mutateAmid_of_bound corpus binds]
    refine Ends.bind Trial.fraction_ends fun fraction _ => ?_
    split
    · refine Ends.bind (Ends.chance ((Grammar.grow_ends _ _ _).mono (fun _ _ => trivial)
        fun _ stop => stop) fun _ _ => trivial) fun grown _ => ?_
      cases grown with
      | none => exact byEdits
      | some tree => exact Ends.bind Ends.note fun _ _ => Ends.pure rfl
    · exact byEdits

/-- However a mutator is used since it was new, a strategy that is switched off has no attempts,
and no request has moved their count. -/
theorem Used.unmoved {engine : Engine} {mutator : Mutator} {requests : List Returned}
    (used : Used σ engine mutator requests) {weighted off : Strategy}
    (above : ¬ engine.settings.strategyWeights.get weighted ≤ 0)
    (switched : engine.settings.strategyWeights.get off ≤ 0) :
    mutator.tally.attempts.get off = 0 ∧
      ∀ request ∈ requests, request.after.attempts.get off = request.before.attempts.get off := by
  suffices all : mutator.engine = engine ∧ mutator.tally.attempts.get off = 0 ∧
      ∀ request ∈ requests, request.after.attempts.get off = request.before.attempts.get off from
    all.2
  induction used with
  | new =>
    have none : ({} : Tally).attempts.get off = 0 := by cases off <;> rfl
    exact ⟨rfl, none, nofun⟩
  | generated before returns inductionHypothesis => exact inductionHypothesis
  | contextAsked before returns inductionHypothesis => exact inductionHypothesis
  | bound tree before inductionHypothesis => exact inductionHypothesis
  | @answered mutator requests corpus journal next answer before returns inductionHypothesis =>
    obtain ⟨rfl, none, unmoved⟩ := inductionHypothesis
    obtain ⟨-, -, -, kept, -⟩ := answered_accountedFor returns
    have same := mutateAmid_unmoved mutator above switched corpus journal
    rw [returns] at same
    refine ⟨kept, same.trans none, ?_⟩
    rintro request (_ | ⟨_, member⟩)
    · exact same
    · exact unmoved request member
  | refused before returns inductionHypothesis =>
    obtain ⟨kept, none, unmoved⟩ := inductionHypothesis
    refine ⟨kept, none, ?_⟩
    rintro request (_ | ⟨_, member⟩)
    · rfl
    · exact unmoved request member

/-- What is switched off is never used, as long as some strategy and some mode have weight above
zero. However a mutator is used since it was new, with whatever corpora and sources, a strategy
whose weight is zero or less has no attempts, no request has moved their count, and no single
attempt does, be it one of a request that is abandoned later. An edit of a repetition is drawn and
then made, and the mode that is drawn for it never is one whose weight is zero or less. If both
modes that delete are switched off an edit of a repetition is refused and leaves the tree as it is,
or it keeps all the children of the edited node, in order, and puts a run among them that is not
empty. -/
theorem switched_off_is_never_used (engine : Engine)
    (someStrategy : ∃ strategy, 0 < engine.settings.strategyWeights.get strategy)
    (someMode : ∃ mode, 0 < engine.settings.repeatModes.get mode) :
    (∀ off, engine.settings.strategyWeights.get off ≤ 0 →
      (∀ mutator requests, Used σ engine mutator requests →
        mutator.tally.attempts.get off = 0 ∧ ∀ request ∈ requests,
          request.after.attempts.get off = request.before.attempts.get off) ∧
      ∀ (corpus : Corpus) (request : Request),
        Ends (attempt engine corpus request : Trial MutationError σ (Request × Bool))
          (fun outcome =>
            outcome.1.tally.attempts.get off = request.tally.attempts.get off) fun _ => True) ∧
    (∀ (sites : Sites) (tree : Tree),
      (engine.repeatMutator sites tree : Chance σ Edited) =
        engine.chooseEditing sites tree >>= engine.performEditing tree ∧
      Ends (engine.chooseEditing sites tree : Chance σ (Option Editing))
        (fun chosen => ∀ editing, chosen = some editing →
          ¬ engine.settings.repeatModes.get editing.mode ≤ 0) fun _ => False) ∧
    (engine.settings.repeatModes.delete ≤ 0 → engine.settings.repeatModes.deleteThenInsert ≤ 0 →
      ∀ (sites : Sites) (tree : Tree),
        Ends (engine.repeatMutator sites tree : Chance σ Edited)
          (fun edited => edited.Turns tree (Engine.Enlarges tree)) fun _ => True) := by
  obtain ⟨weighted, strategyAbove⟩ := someStrategy
  obtain ⟨mode, modeAbove⟩ := someMode
  have strategyAbove := Double.not_le_of_lt strategyAbove
  have modeAbove := Double.not_le_of_lt modeAbove
  refine ⟨fun off switched => ⟨?used, ?attempt⟩, fun sites tree => ⟨?apart, ?mode⟩, ?enlarges⟩
  case used => exact fun _ _ used => used.unmoved strategyAbove switched
  case attempt =>
    intro corpus request
    refine (attempt_weighted engine strategyAbove corpus request).mono ?_ fun _ stop => stop
    rintro outcome ⟨strategy, picked, tally⟩
    have different : off ≠ strategy := by
      rintro rfl
      exact picked switched
    rw [tally, Tally.attempts_record_of_ne _ different]
  case apart => exact Engine.repeatMutator_eq engine sites tree
  case mode =>
    exact (Engine.chooseEditing_ends engine modeAbove sites tree).mono
      (fun _ known editing chosen => (known editing chosen).2.2) fun _ stop => stop
  case enlarges =>
    exact fun noDeletion noExchange sites tree =>
      Engine.repeatMutator_enlarges engine modeAbove noDeletion noExchange sites tree

/-- An engine for binary numerals whose only strategy is to edit repetitions and whose only mode is
to insert. -/
def ofInsertions : Engine :=
  { Engine.ofDigits with settings := Workbench.editing ⟨0, 0, 1⟩ }

/-- A digit is put into the numeral of zero. No other strategy is attempted, and the digit that was
there stays. -/
theorem switched_off_is_never_used_ofInsertions :
    (∃ strategy, 0 < ofInsertions.settings.strategyWeights.get strategy) ∧
    (∃ mode, 0 < ofInsertions.settings.repeatModes.get mode) ∧
    (∃ (mutator : Mutator) (requests : List Returned),
      Used Script ofInsertions mutator requests ∧ requests.length = 1 ∧
      mutator.tally.successes.repeatMutator = 1 ∧ mutator.tally.attempts.get .splice = 0) ∧
    ∃ source final : Script,
      ofInsertions.repeatMutator (ofInsertions.sites (Engine.numeral [48])) (Engine.numeral [48])
        source = .ok (.changed (Engine.numeral [48, 49])) final ∧
      Engine.Enlarges (Engine.numeral [48]) (Engine.numeral [48, 49]) := by
  have someStrategy : ∃ strategy, 0 < ofInsertions.settings.strategyWeights.get strategy :=
    ⟨.repeatMutator, by decide +kernel⟩
  have someMode : ∃ mode, 0 < ofInsertions.settings.repeatModes.get mode :=
    ⟨.insert, by decide +kernel⟩
  have noSplice : ofInsertions.settings.strategyWeights.get .splice ≤ 0 := by decide +kernel
  have noDeletion : ofInsertions.settings.repeatModes.delete ≤ 0 := by decide +kernel
  have noExchange : ofInsertions.settings.repeatModes.deleteThenInsert ≤ 0 := by decide +kernel
  obtain ⟨unmoved, -, enlarges⟩ :=
    switched_off_is_never_used (σ := Script) ofInsertions someStrategy someMode
  refine ⟨someStrategy, someMode, ?_, ?_⟩
  · let bound := ({ engine := ofInsertions } : Mutator).initRound (Engine.numeral [48])
    let source := Workbench.scripted
      [0, 0, 0, 0, 0, 4294967295, 18446744073709551615, 18446744073709551615]
    let journal : Journal Script := { source }
    have productive : (match bound.mutateAmid (fun _ => .unbounded) journal with
      | .ok answer _ => decide (answer.1.tally.successes.repeatMutator = 1)
      | .error _ _ => false) = true := by decide +kernel
    cases returns : bound.mutateAmid (fun _ => .unbounded) journal with
    | error stop reached =>
      rw [returns] at productive
      cases productive
    | ok answer reached =>
      rw [returns] at productive
      have used := Used.answered (.bound (Engine.numeral [48]) .new) returns
      exact ⟨_, _, used, rfl, of_decide_eq_true productive,
        ((unmoved .splice noSplice).1 _ _ used).1⟩
  · let source := Workbench.scripted [0, 0, 0, 4294967295, 18446744073709551615]
    have applied : ∃ final,
        ofInsertions.repeatMutator (ofInsertions.sites (Engine.numeral [48]))
          (Engine.numeral [48]) source = .ok (.changed (Engine.numeral [48, 49])) final :=
      ⟨_, rfl⟩
    obtain ⟨final, ended⟩ := applied
    have enlarged := enlarges noDeletion noExchange (ofInsertions.sites (Engine.numeral [48]))
      (Engine.numeral [48]) source
    rw [ended] at enlarged
    obtain unchanged | ⟨made, same, enlarges⟩ := enlarged
    · cases unchanged
    · cases same
      exact ⟨source, final, ended, enlarges⟩

end Mutator

end Graft
