import Graft.Proofs.Agreement
import Graft.Proofs.Mutation.Call
import Graft.Proofs.Mutation.Locality

/-!
# Requests do not depend on the past

A mutator keeps what it has collected and counted from one request to the next,
and a workbench keeps the samples of earlier calls. None of it has a part in a
request: lists of candidates are collected anew before they are read, counts are
only added to, and the slot to be filled is not looked at.

Two requests are compared that differ in all of this. They start from the same
bound tree, with one engine, the same trees in the corpus and equal sources, and
they come to the same sample, to equal sources and to equal increments of their
counts.
-/

namespace Graft

open Graft.Random

variable {σ : Type} [Source σ]

/-- What the corpus gives depends on nothing but the trees it holds. Its limit has a part only in
what is let go. -/
theorem Corpus.random_congr {corpus other : Corpus} (trees : corpus.trees = other.trees) :
    (corpus.random : Chance σ (Option Tree)) = other.random := by
  obtain ⟨limit, held⟩ := corpus
  obtain ⟨bound, present⟩ := other
  cases trees
  rfl

namespace Engine

/-- What donors are found does not depend on those that were held, as these are forgotten before
the list is read. -/
theorem chooseDonor_congr (query : Query) (other : Tree) (donors held : List Candidate) :
    (chooseDonor query other donors : Chance σ (List Candidate × Option Tree)) =
      chooseDonor query other held := by
  rw [chooseDonor, chooseDonor, Query.refilled_eq, Query.refilled_eq]

variable (engine : Engine) {corpus other : Corpus} (trees : corpus.trees = other.trees)
  (sites : Sites) (tree : Tree) (donors held : List Candidate)
include trees

/-- What a splice leaves of a tree depends on nothing of the corpus but the trees it holds, and not
on the donors that were held: these are found afresh. -/
theorem splice_congr :
    Attempt.edited <$> (engine.splice corpus sites tree donors : Chance σ Attempt) =
      Attempt.edited <$> engine.splice other sites tree held := by
  unfold splice
  rw [map_bind, map_bind]
  apply bind_congr
  rintro (_ | candidate)
  · rfl
  · dsimp only
    rw [map_bind, map_bind, Corpus.random_congr trees]
    apply bind_congr
    rintro (_ | donated)
    · rfl
    · dsimp only
      cases (tree.at? candidate.path).bind Tree.symbol? with
      | none => rfl
      | some symbol => simp only [chooseDonor_congr _ donated donors held]

/-- What a copy leaves of a tree depends on nothing of the corpus but the trees it holds, and not on
the donors that were held, as with a splice. -/
theorem repeatSplice_congr :
    Attempt.edited <$> (engine.repeatSplice corpus sites tree donors : Chance σ Attempt) =
      Attempt.edited <$> engine.repeatSplice other sites tree held := by
  unfold repeatSplice
  rw [map_bind, map_bind]
  apply bind_congr
  rintro (_ | candidate)
  · rfl
  · dsimp only
    rw [map_bind, map_bind, Corpus.random_congr trees]
    apply bind_congr
    rintro (_ | donated)
    · rfl
    · dsimp only
      cases tree.at? candidate.path with
      | none => rfl
      | some node =>
        cases node with
        | text octets => rfl
        | expansion symbol children => simp only [chooseDonor_congr _ donated donors held]

/-- What a strategy leaves of a tree depends on nothing of the corpus but the trees it holds, and
not on the donors that were held. Two of the strategies read neither. -/
theorem apply_congr (strategy : Strategy) :
    Attempt.edited <$> (engine.apply corpus strategy sites tree donors : Chance σ Attempt) =
      Attempt.edited <$> engine.apply other strategy sites tree held := by
  cases strategy with
  | replaceNode =>
    by_cases bare : sites.nodes.isEmpty = true
    · simp only [apply, bare, ↓reduceIte, map_pure]
    · simp only [apply, bare, Bool.false_eq_true, ↓reduceIte, map_bind, map_pure]
  | splice => exact splice_congr engine trees sites tree donors held
  | repeatMutator => simp only [apply, map_bind, map_pure]
  | repeatSplice => exact repeatSplice_congr engine trees sites tree donors held

end Engine

/-- The counts have grown from the given ones by one and the same increment. -/
def Tally.GrownAlike (leftStart rightStart left right : Tally) : Prop :=
  ∃ increment : Tally, left = leftStart.merge increment ∧ right = rightStart.merge increment

/-- Counts that have grown alike grow alike with one more attempt, since what is counted for it is
added to the increment of both. -/
theorem Tally.GrownAlike.record {leftStart rightStart left right : Tally}
    (grown : GrownAlike leftStart rightStart left right) (strategy : Strategy)
    (succeeded : Bool) :
    GrownAlike leftStart rightStart (left.record strategy succeeded)
      (right.record strategy succeeded) := by
  obtain ⟨increment, rfl, rfl⟩ := grown
  exact ⟨increment.record strategy succeeded, merge_record .., merge_record ..⟩

namespace Mutator

/-- Two requests have come equally far: they have the same tree at hand and have counted the
same. What they have collected on the way may differ. -/
structure Abreast (leftStart rightStart : Tally) (left right : Request) : Prop where
  working : left.working = right.working
  changed : left.changed = right.changed
  tally : Tally.GrownAlike leftStart rightStart left.tally right.tally

/-- Two answers are the same but for what the mutators had collected and counted before. -/
def SameAnswer (leftStart rightStart : Tally) (left right : Mutator × Bytes) : Prop :=
  left.2 = right.2 ∧ Tally.GrownAlike leftStart rightStart left.1.tally right.1.tally

variable {leftStart rightStart : Tally} {corpus other : Nat → Corpus}

/-- One attempt keeps requests abreast, as it collects what it reads. The nodes and donors that the
two requests come with may be different ones. -/
theorem attempt_agree (engine : Engine) {now meanwhile : Corpus}
    (trees : now.trees = meanwhile.trees) {left right : Request}
    (abreast : Abreast leftStart rightStart left right) :
    Agree (fun next opposite =>
        Abreast leftStart rightStart next.1 opposite.1 ∧ next.2 = opposite.2)
      (attempt engine now left : Trial MutationError σ (Request × Bool))
      (attempt engine meanwhile right) := by
  obtain ⟨working, changed, tally⟩ := abreast
  simp only [attempt, Request.refresh_eq, working]
  apply Agree.bind (Agree.chance _)
  rintro fraction _ rfl
  apply Agree.bind (Agree.chance_of_map_eq
    (Engine.apply_congr engine trees _ right.working left.donors right.donors _))
  rintro ⟨⟨result, applied⟩, donors⟩ ⟨_, _⟩ rfl
  cases applied with
  | false =>
    refine Agree.bind (Agree.note _ _) fun _ _ _ => Agree.pure ⟨⟨rfl, ?_, ?_⟩, rfl⟩
    · exact congrArg (· || false) changed
    · exact tally.record _ _
  | true =>
    refine Agree.pure ⟨⟨rfl, ?_, ?_⟩, rfl⟩
    · exact congrArg (· || true) changed
    · exact tally.record _ _

/-- Attempts one after the other keep requests abreast. The induction is on the attempts that
are left; after each of them both requests go on, or neither does. -/
theorem edit_agree (engine : Engine)
    (trees : ∀ moment, (corpus moment).trees = (other moment).trees) (attempts : Nat)
    {left right : Request} (abreast : Abreast leftStart rightStart left right) :
    Agree (Abreast leftStart rightStart)
      (edit engine corpus left attempts : Trial MutationError σ Request)
      (edit engine other right attempts) := by
  induction attempts generalizing left right with
  | zero => exact Agree.pure abreast
  | succ attempts inductionHypothesis =>
    rw [edit_succ, edit_succ]
    apply Agree.bind (attempt_agree engine (trees attempts) abreast)
    rintro ⟨next, succeeded⟩ ⟨opposite, _⟩ ⟨abreast, rfl⟩
    cases succeeded with
    | false => exact inductionHypothesis abreast
    | true =>
      apply Agree.bind (Agree.chance _)
      rintro fraction _ rfl
      dsimp only
      split
      · exact Agree.pure abreast
      · exact inductionHypothesis abreast

/-- Answers by edits are the same if the counts have grown alike before. What the counts have been
does not show in the answers. -/
theorem mutateByEdits_agree {left right : Mutator} (engine : left.engine = right.engine)
    (trees : ∀ moment, (corpus moment).trees = (other moment).trees) (bound : Tree)
    (tally : Tally.GrownAlike leftStart rightStart left.tally right.tally) :
    Agree (SameAnswer leftStart rightStart)
      (left.mutateByEdits corpus bound : Trial MutationError σ (Mutator × Bytes))
      (right.mutateByEdits other bound) := by
  unfold mutateByEdits mutateByEditsWithin
  rw [engine]
  refine Agree.bind (edit_agree right.engine trees _ ⟨rfl, rfl, tally⟩) ?_
  rintro edited opposite ⟨working, changed, grown⟩
  dsimp only
  rw [changed, working]
  split
  · exact Agree.pure ⟨rfl, grown⟩
  · refine Agree.bind (Agree.note _ _) fun _ _ _ => Agree.pure ⟨rfl, ?_⟩
    obtain ⟨increment, leftIs, rightIs⟩ := grown
    rw [leftIs, rightIs]
    exact ⟨{ increment with unproductive := increment.unproductive + 1 }, rfl, rfl⟩

/-- Requests from one bound tree, with one engine and the same trees in the corpus at every moment,
are answered alike, or stop for the same cause. How many trees the corpora could hold is of no
account. -/
theorem mutateAmid_agree {left right : Mutator} (engine : left.engine = right.engine)
    (bound : left.bound = right.bound)
    (trees : ∀ moment, (corpus moment).trees = (other moment).trees) :
    Agree (SameAnswer left.tally right.tally)
      (left.mutateAmid corpus : Trial MutationError σ (Mutator × Bytes))
      (right.mutateAmid other) := by
  cases binds : right.bound with
  | none =>
    rw [mutateAmid_of_unbound corpus (bound.trans binds), mutateAmid_of_unbound other binds]
    exact Agree.throw _
  | some tree =>
    rw [mutateAmid_of_bound corpus (bound.trans binds), mutateAmid_of_bound other binds]
    have byEdits : Agree (SameAnswer left.tally right.tally)
        (({ left with
            tally := { left.tally with requests := left.tally.requests + 1 } }).mutateByEdits
          corpus tree : Trial MutationError σ (Mutator × Bytes))
        (({ right with
          tally := { right.tally with requests := right.tally.requests + 1 } }).mutateByEdits
            other tree) := by
      apply mutateByEdits_agree _ trees
      · exact ⟨{ requests := 1 }, rfl, rfl⟩
      · exact engine
    simp only [engine] at byEdits ⊢
    apply Agree.bind (Agree.chance _)
    rintro fraction _ rfl
    split
    · apply Agree.bind (Agree.chance _)
      rintro grown _ rfl
      cases grown with
      | none => exact byEdits
      | some tree =>
        refine Agree.bind (Agree.note _ _) fun _ _ _ => Agree.pure ⟨rfl, ?_⟩
        exact ⟨{ requests := 1, regenerations := 1 }, rfl, rfl⟩
    · exact byEdits

end Mutator

namespace Workbench

/-- The counts that a request leaves at the place of the mutator that was asked are those of the
mutator that it answers with. -/
theorem tally_setIfInBounds {mutators : Array Mutator} {number : Nat} {mutator : Mutator}
    (found : mutators[number]? = some mutator) (next : Mutator) :
    (mutators.setIfInBounds number next)[number]?.map Mutator.tally = some next.tally := by
  obtain ⟨inside, -⟩ := Array.getElem?_eq_some_iff.mp found
  rw [Array.getElem?_setIfInBounds_self_of_lt inside, Option.map_some]

/-- The past has no part in a request. Two mutators with one engine and one bound tree are
asked, each at a workbench of its own, where the corpora hold the same trees and the sources
are equal. Whatever they have collected and counted before, and whatever the slots hold that
they are to fill, they write the same sample, or stop for the same cause and write nothing.
In either case they leave equal sources and add one and the same increment to their counts. -/
theorem mutate_without_history {left right : Workbench σ}
    {leftNumber rightNumber leftSlot rightSlot : Nat} {leftMutator rightMutator : Mutator}
    (leftFound : left.mutators[leftNumber]? = some leftMutator)
    (rightFound : right.mutators[rightNumber]? = some rightMutator)
    (engine : leftMutator.engine = rightMutator.engine)
    (bound : leftMutator.bound = rightMutator.bound)
    (trees : left.corpus.trees = right.corpus.trees)
    (source : left.journal.source = right.journal.source) :
    (∃ increment : Tally,
      (left.after (.mutate leftNumber leftSlot)).mutators[leftNumber]?.map Mutator.tally =
          some (leftMutator.tally.merge increment) ∧
        (right.after (.mutate rightNumber rightSlot)).mutators[rightNumber]?.map Mutator.tally =
          some (rightMutator.tally.merge increment)) ∧
      (left.after (.mutate leftNumber leftSlot)).journal.source =
          (right.after (.mutate rightNumber rightSlot)).journal.source ∧
        match perform (.mutate leftNumber leftSlot) left,
          perform (.mutate rightNumber rightSlot) right with
        | .ok _ leftNext, .ok _ rightNext =>
          leftNext.sample leftSlot = rightNext.sample rightSlot
        | .error stop leftNext, .error cause rightNext =>
          stop = cause ∧ leftNext.samples = left.samples ∧ rightNext.samples = right.samples
        | _, _ => False := by
  have requests : Agree (Mutator.SameAnswer leftMutator.tally rightMutator.tally)
      (leftMutator.mutate left.corpus : Trial MutationError σ (Mutator × Bytes))
      (rightMutator.mutate right.corpus) :=
    Mutator.mutateAmid_agree engine bound fun _ => trees
  have agree := requests left.journal right.journal source
  simp only [after, perform_mutate, leftFound, rightFound]
  cases leftEnd : leftMutator.mutate left.corpus left.journal with
  | ok answer leftJournal =>
    cases rightEnd : rightMutator.mutate right.corpus right.journal with
    | ok other rightJournal =>
      simp only [leftEnd, rightEnd] at agree
      obtain ⟨⟨sample, increment, leftTally, rightTally⟩, same⟩ := agree
      refine ⟨⟨increment, ?_, ?_⟩, same, ?_⟩
      · rw [← leftTally]
        exact tally_setIfInBounds leftFound answer.1
      · rw [← rightTally]
        exact tally_setIfInBounds rightFound other.1
      · dsimp only
        rw [sample_fill, sample_fill, sample]
    | error cause rightJournal => simp only [leftEnd, rightEnd] at agree
  | error stop leftJournal =>
    cases rightEnd : rightMutator.mutate right.corpus right.journal with
    | ok other rightJournal => simp only [leftEnd, rightEnd] at agree
    | error cause rightJournal =>
      simp only [leftEnd, rightEnd] at agree
      refine ⟨⟨{}, ?_, ?_⟩, agree.2, agree.1, rfl, rfl⟩
      · exact congrArg (Option.map Mutator.tally) leftFound
      · exact congrArg (Option.map Mutator.tally) rightFound

/-- A workbench with a new mutator. -/
def novice : Workbench SplitMix where
  grammar := .numerals
  patience := 50
  journal := { source := ⟨0⟩ }
  mutators := #[.ofOne]

/-- A workbench where the like of it has been at other work, beside another one and with a
corpus that has a limit. -/
def veteran : Workbench SplitMix where
  grammar := .numerals
  patience := 50
  journal := { source := ⟨0⟩ }
  corpus := .withLimit 3
  mutators := #[.ofOne, { Mutator.ofOne with
    sites := ⟨[⟨[4, 2], 2, 1⟩], [⟨[7], 1, 1⟩]⟩
    donors := [⟨[3], 1, 1⟩]
    tally :=
      { requests := 5
        unproductive := 1
        attempts := ⟨2, 0, 3, 1⟩
        successes := ⟨1, 0, 3, 0⟩ } }]
  samples := [(7, [255, 255])]

/-- Whether they are new or not, the mutators write the same sample. -/
theorem mutate_without_history_veteran :
    ∃ noviceNext veteranNext,
      perform (.mutate 0 0) novice = .ok () noviceNext ∧
        perform (.mutate 1 7) veteran = .ok () veteranNext ∧
          noviceNext.sample 0 = veteranNext.sample 7 ∧
            noviceNext.journal.source = veteranNext.journal.source := by
  have alike :=
    @mutate_without_history SplitMix _ novice veteran 0 1 0 7 _ _ rfl rfl rfl rfl rfl rfl
  obtain ⟨-, source, samples⟩ := alike
  have answered : (match perform (.mutate 0 0) novice with
      | .ok _ _ => true
      | .error _ _ => false) = true := by decide +kernel
  cases noviceEnd : perform (.mutate 0 0) novice with
  | error stop noviceNext => simp [noviceEnd] at answered
  | ok value noviceNext =>
    cases veteranEnd : perform (.mutate 1 7) veteran with
    | error cause veteranNext => simp [noviceEnd, veteranEnd] at samples
    | ok other veteranNext =>
      simp only [after, noviceEnd, veteranEnd] at source samples
      exact ⟨noviceNext, veteranNext, rfl, rfl, samples, source⟩

end Workbench

end Graft
