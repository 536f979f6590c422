import Graft.Proofs.Mutation.Drawing
import Graft.Proofs.Mutation.RepetitionCopy
import Graft.Proofs.Mutation.Switches
import Graft.Proofs.Random.Boundary
import Graft.Proofs.Random.Clear

/-!
# What a probability of zero rules out

A probability of zero is meant to rule something out: another element of a run, another edit of a
request, a new growth, a deletion. Two of the comparisons are strict. They rule out growths afresh
and deletions before a copy, whatever is drawn. The others let a fraction pass that is equal to the
probability, and zero is a fraction. So a run of elements ends with its first element, and a request
with its first success, unless a word is drawn without any of the 53 upper bits.
-/

namespace Graft

open Graft.Random Chance

variable {σ : Type} [Source σ]

/-! ## Growth -/

namespace Grammar

/-- A node of a repetition has exactly one child. -/
def Single (symbol : Symbol) (children : List Tree) : Prop :=
  symbol.isRepetition = true → children.length = 1

instance (symbol : Symbol) (children : List Tree) : Decidable (Single symbol children) :=
  inferInstanceAs (Decidable (_ → _))

variable {grammar : Grammar} {patience : Nat} {source final : σ}

/-- At a probability of zero a run of elements ends with the first one, unless zero is drawn. Only a
draw of zero is not above a probability of zero. -/
theorem growRun_single {probability : Float} (zero : (probability == 0) = true)
    {grow : Chance σ (Option Tree)} (draws : Sustains grow Source.Reaches fun _ => True)
    {trees : List Tree} (ended : growRun probability grow patience source = .ok (some trees) final)
    (clear : Source.Clear source final) :
    ∃ tree between, trees = [tree] ∧ grow source = .ok (some tree) between ∧
      Source.Reaches between final := by
  cases patience with
  | zero => cases ended
  | succ patience =>
    rw [growRun] at ended
    obtain ⟨grown, between, grows, ended⟩ := exists_of_bind_eq_ok ended
    cases grown with
    | none => cases ended
    | some tree =>
      dsimp only at ended
      rw [bind_of_ok (Chance.fraction_eq between)] at ended
      by_cases last : probability < unitFraction (Source.next64 between).1
      · rw [if_pos last] at ended
        cases ended
        exact ⟨tree, between, rfl, grows, .word between⟩
      · -- The run goes on, so what was drawn is on the way to where it ends.
        rw [if_neg last] at ended
        obtain ⟨others, run, -⟩ := exists_of_map_eq_ok ended
        have before : Source.Reaches source between := draws.ok grows (.refl source)
        have after : Source.Reaches (Source.next64 between).2 final :=
          (growRun_sustains Source.reaches_steady trivial probability draws patience).ok run
            (.refl _)
        have something := clear between before after
        exact absurd ((lt_unitFraction_iff_of_zero zero _).mpr something) last

/-- A row is of one kind, unless zero is drawn, if texts and the growths of its symbols are. The
growth of each symbol draws a part of what is drawn for the row, and no zero is in the parts if none
is in the whole. -/
theorem growRow_unless_zero {grow : Symbol → Chance σ (Option Tree)} {stands : Tree → Prop}
    (draws : ∀ symbol, Sustains (grow symbol) Source.Reaches fun _ => True)
    (text : ∀ octets, stands (.text octets))
    (grows : ∀ symbol ∈ grammar.symbols, ∀ source tree final,
      grow symbol source = .ok (some tree) final → Source.Clear source final → stands tree)
    {parts : List Part} {trees : List Tree}
    (ended : grammar.growRow grow parts source = .ok (some trees) final)
    (clear : Source.Clear source final) : ∀ tree ∈ trees, stands tree := by
  induction parts generalizing source trees with
  | nil =>
    cases ended
    nofun
  | cons part parts inductionHypothesis =>
    cases part with
    | literal octets =>
      obtain ⟨others, rest, rfl⟩ := exists_of_map_eq_ok ended
      exact List.forall_mem_cons.mpr ⟨text octets, inductionHypothesis rest clear⟩
    | symbol id =>
      cases found : grammar.symbols[id]? with
      | none =>
        simp only [growRow, found] at ended
        cases ended
      | some symbol =>
        simp only [growRow, found] at ended
        obtain ⟨grown, between, first, ended⟩ := exists_of_bind_eq_ok ended
        cases grown with
        | none => cases ended
        | some tree =>
          obtain ⟨others, rest, rfl⟩ := exists_of_map_eq_ok ended
          have before : Source.Reaches source between := (draws symbol).ok first (.refl source)
          have after : Source.Reaches between final :=
            (growRow_sustains draws parts).ok rest (.refl between)
          have own := grows symbol (List.mem_of_getElem? found) _ _ _ first (clear.left after)
          have known := inductionHypothesis rest (clear.right before)
          exact List.forall_mem_cons.mpr ⟨own, known⟩

/-- At a probability of zero every repetition that grows has one child, unless zero is drawn. The
induction is on the budget: below a repetition everything has grown with a smaller one. -/
theorem growNode_single (wellFormed : grammar.WellFormed)
    (zero : (grammar.repeatProbability == 0) = true) {budget : Nat} {symbol : Symbol}
    (owned : grammar.Owns symbol) {tree : Tree}
    (ended : grammar.growNode patience budget symbol source = .ok (some tree) final)
    (clear : Source.Clear source final) : tree.Everywhere Single := by
  induction budget generalizing symbol source tree final with
  | zero =>
    by_cases limited : grammar.maxDepth < Depth.greatest
    · rw [growNode, if_pos limited] at ended
      cases ended
    · rw [growNode, if_neg limited] at ended
      cases ended
  | succ budget inductionHypothesis =>
    have draws (symbol : Symbol) :
        Sustains (grammar.growNode patience budget symbol : Chance σ (Option Tree))
          Source.Reaches fun _ => True :=
      growNode_sustains (grammar.reaches_steady patience) budget symbol
    cases produced : grammar.productions[symbol.id]? with
    | none =>
      simp only [growNode, produced] at ended
      cases ended
    | some production =>
      cases production with
      | alternatives rows =>
        have plain := wellFormed.plain symbol rows owned produced
        cases rows with
        | nil =>
          simp only [growNode, produced] at ended
          cases ended
        | cons row rows =>
          simp only [growNode, produced] at ended
          obtain ⟨place, between, chosen, ended⟩ := exists_of_bind_eq_ok ended
          cases placed : (row :: rows)[place]? with
          | none =>
            simp only [placed] at ended
            cases ended
          | some row =>
            simp only [placed] at ended
            obtain ⟨children, grows, rfl⟩ := exists_of_map_eq_ok ended
            have before : Source.Reaches source between :=
              (Source.reaches_steady.below _).ok chosen (.refl source)
            refine Tree.everywhere_expansion.mpr ⟨?_, ?_⟩
            · intro repetition
              rw [Symbol.isRepetition, plain] at repetition
              cases repetition
            · refine growRow_unless_zero draws (fun _ => Tree.everywhere_text) ?_ grows
                (clear.right before)
              intro symbol member source tree final grows clear
              exact inductionHypothesis (wellFormed.numbered symbol member) grows clear
      | repetition repeated =>
        obtain ⟨element, carried, ownsElement, -⟩ := wellFormed.repeats symbol _ owned produced
        simp only [growNode, produced, carried] at ended
        obtain ⟨children, run, rfl⟩ := exists_of_map_eq_ok ended
        obtain ⟨child, between, rfl, grown, after⟩ := growRun_single zero (draws element) run clear
        have known := inductionHypothesis ownsElement grown (clear.left after)
        refine Tree.everywhere_expansion.mpr ⟨fun _ => rfl, ?_⟩
        exact List.forall_mem_singleton.mpr known

/-- At a probability of zero every repetition of a growth has one child, unless zero is drawn. The
depth of the growth only sets the budget. -/
theorem grow_single (wellFormed : grammar.WellFormed)
    (zero : (grammar.repeatProbability == 0) = true) {symbol : Symbol} {depth : Nat} {tree : Tree}
    (ended : grammar.grow patience symbol depth source = .ok (some tree) final)
    (clear : Source.Clear source final) : tree.Everywhere Single := by
  cases found : grammar.symbols[symbol.id]? with
  | none =>
    simp only [grow, found] at ended
    cases ended
  | some own =>
    by_cases named : (own.name == symbol.name) = true
    · simp only [grow, found, named, ↓reduceIte] at ended
      exact growNode_single wellFormed zero
        (wellFormed.numbered own (List.mem_of_getElem? found)) ended clear
    · simp only [grow, found, named] at ended
      cases ended

end Grammar

/-! ## Runs of elements -/

/-- What words are taken is drawn. The induction is on their number. -/
theorem Random.Source.reaches_after (source : σ) (drawn : Nat) :
    Source.Reaches source (Source.after source drawn) := by
  induction drawn generalizing source with
  | zero => exact .refl source
  | succ drawn inductionHypothesis => exact (Reaches.word source).trans (inductionHypothesis _)

/-- A run of one at most leaves the children without the one at its position. Past the last child
there is none to take out. -/
theorem withoutRun_one (position : Nat) (children : List Tree) :
    withoutRun position (min (children.length - position) 1) children =
      children.eraseIdx position := by
  by_cases inside : position < children.length
  · have one : min (children.length - position) 1 = 1 := by omega
    rw [one, List.eraseIdx_eq_take_drop_succ]
    rfl
  · have none : min (children.length - position) 1 = 0 := by omega
    rw [none, withoutRun_zero, List.eraseIdx_of_length_le (Nat.le_of_not_lt inside)]

namespace Engine

variable {engine : Engine} {source final : σ}

/-- At a probability of zero a run goes on exactly if zero is drawn. -/
theorem continues_iff_of_zero (zero : (engine.settings.repeatProbability == 0) = true)
    (source : σ) : engine.Continues source ↔ (Source.next64 source).1 >>> 11 = 0 :=
  unitFraction_le_iff_of_zero zero _

/-- At a probability of zero a run has one element, where there is one, unless zero is drawn. A
longer one would have asked whether to go on, and been told so by a zero. -/
theorem count_eq_of_clear (zero : (engine.settings.repeatProbability == 0) = true)
    {available count : Nat}
    (counted : (count : ℕ∞) = min (available : ℕ∞) (1 + engine.streak source))
    (clear : Source.Clear source (Source.after source count)) : count = min available 1 := by
  cases count with
  | zero =>
    have nothing : available = 0 := by
      by_contra something
      have one : (1 : ℕ∞) ≤ min (available : ℕ∞) (1 + engine.streak source) :=
        le_min (Nat.one_le_cast.mpr (Nat.one_le_iff_ne_zero.mpr something)) le_self_add
      rw [← counted] at one
      exact absurd one (by simp)
    rw [nothing]
    rfl
  | succ count =>
    have ends : ¬ engine.Continues source := by
      rw [continues_iff_of_zero zero]
      exact clear source (.refl source) (Source.reaches_after _ count)
    have cast : ((min available 1 : Nat) : ℕ∞) = min (available : ℕ∞) 1 :=
      Nat.mono_cast.map_min
    rw [streak_of_not_continues ends, add_zero, ← cast] at counted
    exact Nat.cast_injective counted

/-- At a probability of zero a deletion leaves the children without the one at the position, unless
zero is drawn. Where nothing is to be deleted all of them are left. -/
theorem withoutRun_eq_of_clear (zero : (engine.settings.repeatProbability == 0) = true)
    {delete : Bool} {position count : Nat} {children : List Tree}
    (counted : (count : ℕ∞) = if delete = true then
      min ((children.length - position : Nat) : ℕ∞) (1 + engine.streak source) else 0)
    (clear : Source.Clear source (Source.after source count)) :
    withoutRun position count children =
      if delete = true then children.eraseIdx position else children := by
  cases delete with
  | false =>
    have none : count = 0 := Nat.cast_eq_zero.mp counted
    rw [none, withoutRun_zero]
    rfl
  | true =>
    rw [count_eq_of_clear zero counted clear, withoutRun_one]
    rfl

/-- Growths one after the other are drawn, and so are the decisions between them. -/
theorem Stages.reaches {element : Symbol} {depth : Nat} {outcomes : List (Option Tree)}
    (run : engine.Stages element depth source outcomes final) : Source.Reaches source final := by
  have draws := grow_sustains engine.reaches_steady (σ := σ) element depth
  induction run with
  | last source reached grown grows ends =>
    exact (draws.ok grows (.refl source)).trans (.word reached)
  | more source reached final grown outcomes grows further rest inductionHypothesis =>
    exact ((draws.ok grows (.refl source)).trans (.word reached)).trans inductionHypothesis

/-- At a probability of zero only one growth is attempted, unless zero is drawn, for after the first
the staging asks whether to go on. -/
theorem Stages.single (zero : (engine.settings.repeatProbability == 0) = true) {element : Symbol}
    {depth : Nat} {outcomes : List (Option Tree)}
    (run : engine.Stages element depth source outcomes final) (clear : Source.Clear source final) :
    ∃ grown, outcomes = [grown] := by
  cases run with
  | last source reached grown grows ends => exact ⟨grown, rfl⟩
  | more source reached final grown outcomes grows further rest =>
    have before : Source.Reaches source reached :=
      (grow_sustains engine.reaches_steady element depth).ok grows (.refl source)
    have something := clear reached before rest.reaches
    exact absurd ((continues_iff_of_zero zero reached).mp further) something

/-- At a probability of zero the second half of an edit deletes one element, where there is one and
the mode deletes, unless zero is drawn. Putting elements in draws nothing. -/
theorem exchange_single (zero : (engine.settings.repeatProbability == 0) = true) {position : Nat}
    {children : List Tree} (inside : position ≤ children.length) {mode : RepeatMode}
    {staged : List Tree} (nothing : mode.inserts = false → staged = []) (source : σ) :
    ∃ left final, engine.exchange position mode staged children source =
        .ok (withRun position staged left) final ∧ Source.Reaches source final ∧
      (Source.Clear source final →
        left = if mode.deletes = true then children.eraseIdx position else children) := by
  obtain ⟨count, counted, exchanged⟩ := exchange_eq engine inside nothing source
  exact ⟨_, _, exchanged, Source.reaches_after source count, withoutRun_eq_of_clear zero counted⟩

/-- At a probability of zero an edit that only deletes takes out the element at the position and no
other one, unless zero is drawn. With no element at the position it takes out none, and is an edit
nevertheless. -/
theorem editRepetition_delete_single (zero : (engine.settings.repeatProbability == 0) = true)
    {symbol element : Symbol} (carried : symbol.element? = some element) (depth : Nat)
    {position : Nat} {children : List Tree} (inside : position ≤ children.length) (source : σ) :
    ∃ edited final,
      engine.editRepetition (.expansion symbol children) depth position .delete source =
        .ok edited final ∧
      (Source.Clear source final →
        edited = .changed (.expansion symbol (children.eraseIdx position))) := by
  have nothing : RepeatMode.delete.inserts = false → ([] : List Tree) = [] := fun _ => rfl
  obtain ⟨left, final, exchanged, -, single⟩ := exchange_single zero inside nothing source
  have staging : engine.staging element depth .delete source = .ok [] source := rfl
  have deletes : ¬ (RepeatMode.delete.inserts = true ∧ ([] : List Tree) = []) := nofun
  refine ⟨.changed (.expansion symbol (withRun position [] left)), final, ?_, fun clear => ?_⟩
  · rw [editRepetition_eq engine carried, bind_of_ok staging, if_neg deletes, bind_of_ok exchanged]
    rfl
  · rw [withRun_nil, single clear]
    rfl

/-- At a probability of zero an edit that inserts attempts a single growth, unless zero is drawn. If
that fails the edit is refused. Otherwise what has grown is put in, after the element at the
position is taken out if the mode deletes as well. -/
theorem editRepetition_insert_single (zero : (engine.settings.repeatProbability == 0) = true)
    {symbol element : Symbol} (carried : symbol.element? = some element) {depth position : Nat}
    {children : List Tree} (inside : position ≤ children.length) {mode : RepeatMode}
    (inserts : mode.inserts = true) {edited : Edited}
    (ended : engine.editRepetition (.expansion symbol children) depth position mode source =
      .ok edited final) (clear : Source.Clear source final) :
    ∃ grown between, engine.Stages element (depth + 1) source [grown] between ∧
      edited = grown.elim (.unchanged (.expansion symbol children)) fun tree =>
        .changed (.expansion symbol (withRun position [tree]
          (if mode.deletes = true then children.eraseIdx position else children))) := by
  rw [editRepetition_eq engine carried] at ended
  obtain ⟨staged, between, staging, ended⟩ := exists_of_bind_eq_ok ended
  have counted : depth < Depth.greatest := by
    by_contra uncountable
    simp only [Engine.staging, inserts, Depth.below, uncountable, ↓reduceIte] at staging
    cases staging
  obtain ⟨outcomes, rfl, run⟩ := stages_of_staging_eq_ok counted staging
  rw [if_pos inserts] at run
  by_cases refused : mode.inserts = true ∧ outcomes.reduceOption = []
  · rw [if_pos refused] at ended
    cases ended
    obtain ⟨grown, rfl⟩ := run.single zero clear
    cases grown with
    | none => exact ⟨none, final, run, rfl⟩
    | some tree => cases refused.2
  · obtain ⟨left, reached, exchanged, after, single⟩ := exchange_single zero inside
      (fun none => absurd (none.symm.trans inserts) Bool.false_ne_true) between
    rw [if_neg refused, bind_of_ok exchanged] at ended
    cases ended
    obtain ⟨grown, rfl⟩ := run.single zero (clear.left after)
    rw [single (clear.right run.reaches)]
    cases grown with
    | none => exact absurd ⟨inserts, rfl⟩ refused
    | some tree => exact ⟨some tree, between, run, rfl⟩

/-- At a probability of zero a copy takes the element at the donor position and no other one, and
takes one element out at most, unless zero is drawn. -/
theorem spliceRepetition_single (zero : (engine.settings.repeatProbability == 0) = true)
    (symbol : Symbol) {children : List Tree} (donor : Tree) {position : Nat}
    (inside : position ≤ children.length) (donorPosition : Nat) (delete : Bool) (source : σ) :
    ∃ spliced final,
      engine.spliceRepetition (.expansion symbol children) donor position donorPosition delete
        source = .ok spliced final ∧
      (Source.Clear source final → spliced = .changed (.expansion symbol
        (withRun position ((donor.children.drop donorPosition).take 1)
          (if delete = true then children.eraseIdx position else children)))) := by
  obtain ⟨deleted, copied, deletion, copying, ended⟩ :=
    spliceRepetition_eq engine symbol donor inside donorPosition delete source
  refine ⟨_, _, ended, fun clear => ?_⟩
  rw [Source.after_add] at clear
  have left := withoutRun_eq_of_clear zero deletion (clear.left (Source.reaches_after _ copied))
  have taken : (donor.children.drop donorPosition).take copied =
      (donor.children.drop donorPosition).take 1 := by
    rw [count_eq_of_clear zero copying (clear.right (Source.reaches_after source deleted)),
      List.take_eq_take_iff, List.length_drop]
    omega
  rw [left, taken]

/-! ## Deletions before a copy -/

/-- At a probability of zero a copy deletes nothing, whatever is drawn. Whether to delete is asked
with a fraction that has to be less than the probability. -/
theorem copy_putsIn (zero : (engine.settings.repeatSpliceDeleteProbability == 0) = true)
    {tree : Tree} {site : Candidate} {symbol : Symbol} {children : List Tree}
    (found : tree.at? site.path = some (.expansion symbol children)) (donor : Tree) :
    Ends (engine.copy tree site symbol children donor : Chance σ Edited)
      (fun edited => ∃ result, edited = .changed result ∧ ∃ run, PutsIn run tree result)
      fun _ => False := by
  refine Ends.bind (Chance.position_ends _) fun position drawn => ?_
  have inside : position ≤ children.length := by omega
  refine Ends.bind (Chance.position_ends _) fun donorPosition _ => ?_
  intro source
  rw [bind_of_ok (Chance.fraction_eq source)]
  have keeps := not_unitFraction_lt_of_zero zero (Source.next64 source).1
  obtain ⟨deleted, copied, deletion, -, ended⟩ := spliceRepetition_eq engine symbol donor inside
    donorPosition (decide (unitFraction (Source.next64 source).1 <
      engine.settings.repeatSpliceDeleteProbability)) (Source.next64 source).2
  simp only [keeps, decide_false, Bool.false_eq_true, ↓reduceIte, Nat.cast_eq_zero] at deletion
  rw [bind_of_ok ended, deletion, withoutRun_zero]
  obtain ⟨result, put, replaced⟩ := Edited.exists_within_changed found _
  exact ⟨result, put, _, putsIn_withRun found replaced⟩

/-- At a probability of zero copies between repetitions delete nothing, whatever is drawn. Without a
donor the tree is left as it was. -/
theorem repeatSplice_putsIn (zero : (engine.settings.repeatSpliceDeleteProbability == 0) = true)
    (corpus : Corpus) (tree : Tree) (held : List Candidate) :
    Ends (engine.repeatSplice corpus (engine.sites tree) tree held : Chance σ Attempt)
      (fun attempt => attempt.edited.Turns tree fun result => ∃ run, PutsIn run tree result)
      fun _ => False := by
  intro source
  rw [repeatSplice_eq]
  by_cases nothing : NoDonor engine corpus tree true source
  · obtain ⟨attempt, final, ended, unchanged⟩ := search_of_noDonor nothing
    rw [ended]
    exact .inl unchanged
  · obtain ⟨pairing, chosen⟩ := exists_chosen nothing
    obtain ⟨edited, final, ended, result, rfl, putsIn⟩ :=
      (copy_putsIn zero chosen.found (.expansion pairing.label pairing.grandchildren)).exists_ok
        (Source.after source 3)
    rw [search_of_chosen chosen, bind_of_ok ended]
    exact .changed putsIn

end Engine

/-! ## Requests -/

namespace Mutator

/-- At a probability of zero attempts end with the first that succeeds, unless zero is drawn. The
induction is on the attempts that are left: those that fail are followed by others in any case. -/
theorem edit_single {engine : Engine} (zero : (engine.settings.continueProbability == 0) = true)
    (corpus : Nat → Corpus) {attempts : Nat} {request edited : Request} {journal final : Journal σ}
    (ended : edit engine corpus request attempts journal = .ok edited final)
    (clear : Source.Clear journal.source final.source) :
    edited.tally.successes.total ≤ request.tally.successes.total + 1 := by
  induction attempts generalizing request journal with
  | zero =>
    cases ended
    exact Nat.le_succ _
  | succ attempts inductionHypothesis =>
    rw [edit_succ] at ended
    obtain ⟨⟨next, succeeded⟩, between, attempted, ended⟩ := exists_of_bind_eq_ok ended
    have before : Source.Reaches journal.source between.source :=
      (attempt_sustains engine.reaches_steady (corpus attempts) request).ok attempted (.refl _)
    have counted : next.tally.successes.total =
        request.tally.successes.total + if succeeded then 1 else 0 := by
      have known := attempt_ends engine (corpus attempts) request journal
      rw [attempted] at known
      obtain ⟨strategy, -, -, -, tally⟩ := known
      rw [← Tally.spent_one, tally, Tally.spent_record, Tally.spent_one]
    cases succeeded with
    | false =>
      have further := inductionHypothesis ended (clear.right before)
      rwa [counted] at further
    | true =>
      have ended : (do
          if engine.settings.continueProbability < (← Trial.chance Chance.fraction) then return next
          edit engine corpus next attempts : Trial MutationError σ Request) between =
        .ok edited final := ended
      rw [bind_of_ok (Trial.fraction_eq between)] at ended
      by_cases last : engine.settings.continueProbability <
          unitFraction (Source.next64 between.source).1
      · rw [if_pos last] at ended
        cases ended
        exact Nat.le_of_eq counted
      · -- Further attempts are made, so what was drawn is on the way to where they end.
        rw [if_neg last] at ended
        have after := (edit_sustains engine.reaches_steady corpus next attempts).ok ended (.refl _)
        have something := clear between.source before after
        exact absurd ((lt_unitFraction_iff_of_zero zero _).mpr something) last

/-- At a probability of zero a request that is answered by edits has one success at most, unless
zero is drawn. The counts are those of its attempts. -/
theorem mutateByEdits_single {mutator : Mutator}
    (zero : (mutator.engine.settings.continueProbability == 0) = true) (corpus : Nat → Corpus)
    {bound : Tree} {journal final : Journal σ} {answer : Mutator × Bytes}
    (ended : mutator.mutateByEdits corpus bound journal = .ok answer final)
    (clear : Source.Clear journal.source final.source) :
    answer.1.tally.successes.total ≤ mutator.tally.successes.total + 1 := by
  obtain ⟨edited, between, edits, ended⟩ := exists_of_bind_eq_ok ended
  by_cases productive : edited.changed = true
  · rw [if_pos productive] at ended
    cases ended
    exact edit_single zero corpus edits clear
  · rw [if_neg productive] at ended
    cases ended
    exact edit_single zero corpus edits clear

/-- At a probability of zero a request has one success at most, unless zero is drawn. A sample that
is grown afresh is no success of a strategy. -/
theorem mutateAmid_single {mutator : Mutator}
    (zero : (mutator.engine.settings.continueProbability == 0) = true) (corpus : Nat → Corpus)
    {journal final : Journal σ} {answer : Mutator × Bytes}
    (ended : mutator.mutateAmid corpus journal = .ok answer final)
    (clear : Source.Clear journal.source final.source) :
    answer.1.tally.successes.total ≤ mutator.tally.successes.total + 1 := by
  cases binds : mutator.bound with
  | none =>
    rw [mutateAmid_of_unbound corpus binds] at ended
    cases ended
  | some bound =>
    rw [mutateAmid_of_bound corpus binds] at ended
    dsimp only at ended
    rw [bind_of_ok (Trial.fraction_eq journal)] at ended
    let counted : Mutator :=
      { mutator with tally := { mutator.tally with requests := mutator.tally.requests + 1 } }
    have zero : (counted.engine.settings.continueProbability == 0) = true := zero
    have byEdits {between : Journal σ} (before : Source.Reaches journal.source between.source)
        (ended : counted.mutateByEdits corpus bound between = .ok answer final) :
        answer.1.tally.successes.total ≤ counted.tally.successes.total + 1 :=
      mutateByEdits_single zero corpus ended (clear.right before)
    by_cases regenerates : unitFraction (Source.next64 journal.source).1 <
        mutator.engine.settings.regenerateProbability
    · have draws : Sustains (Trial.chance (mutator.engine.grow mutator.engine.root 0) :
          Trial MutationError σ (Option Tree))
          (fun start journal => Source.Reaches start journal.source) (Stop.Among fun _ => True) :=
        .chance (Engine.grow_sustains mutator.engine.reaches_steady _ _) fun _ stop => stop
      rw [if_pos regenerates] at ended
      obtain ⟨grown, between, grows, ended⟩ := exists_of_bind_eq_ok ended
      cases grown with
      | some tree =>
        cases ended
        exact Nat.le_succ _
      | none => exact byEdits (draws.ok grows (.word journal.source)) ended
    · rw [if_neg regenerates, pure_bind] at ended
      exact byEdits (.word journal.source) ended

/-- At a probability of zero no request is answered by a new growth, whatever is drawn, as no
fraction is less than zero. -/
theorem mutateAmid_unregenerated {mutator : Mutator}
    (zero : (mutator.engine.settings.regenerateProbability == 0) = true) (corpus : Nat → Corpus) :
    Ends (mutator.mutateAmid corpus : Trial MutationError σ (Mutator × Bytes))
      (fun answer => answer.1.tally.regenerations = mutator.tally.regenerations)
      fun _ => True := by
  cases binds : mutator.bound with
  | none =>
    rw [mutateAmid_of_unbound corpus binds]
    exact Ends.throw trivial
  | some bound =>
    intro journal
    rw [mutateAmid_of_bound corpus binds]
    dsimp only
    rw [bind_of_ok (Trial.fraction_eq journal),
      if_neg (not_unitFraction_lt_of_zero zero (Source.next64 journal.source).1), pure_bind]
    have byEdits : Ends (({ mutator with
        tally := { mutator.tally with requests := mutator.tally.requests + 1 } }).mutateByEdits
          corpus bound : Trial MutationError σ (Mutator × Bytes))
        (fun answer => answer.1.tally.regenerations = mutator.tally.regenerations)
        fun _ => True := by
      refine Ends.bind ((edit_ends mutator.engine corpus _ _).mono (fun _ proceeds => proceeds)
        fun _ _ => trivial) ?_
      rintro edited ⟨trace, -, counted, -⟩
      have same : edited.tally.regenerations = mutator.tally.regenerations := by
        rw [counted]
        exact (Tally.recordAll_ends _ trace).1
      split
      · exact Ends.pure same
      · exact Ends.bind Ends.note fun _ _ => Ends.pure same
    exact byEdits _

end Mutator

/-! ## Zeros -/

/-- An engine handles one element at a time where it deletes, grows or copies elements of a
repetition, unless zero is drawn. -/
structure Engine.OneByOne (σ : Type) [Source σ] (engine : Engine) : Prop where
  /-- An edit that only deletes takes out the element at the position, if there is one. -/
  deletes : ∀ {symbol element : Symbol}, symbol.element? = some element →
    ∀ (depth : Nat) {position : Nat} {children : List Tree}, position ≤ children.length →
      ∀ source : σ, ∃ edited final,
        engine.editRepetition (.expansion symbol children) depth position .delete source =
          .ok edited final ∧
        (Source.Clear source final →
          edited = .changed (.expansion symbol (children.eraseIdx position)))
  /-- An edit that inserts attempts a single growth. What grows is put in, and if nothing does the
  node is left as it is. -/
  inserts : ∀ {symbol element : Symbol}, symbol.element? = some element →
    ∀ {depth position : Nat} {children : List Tree}, position ≤ children.length →
      ∀ {mode : RepeatMode}, mode.inserts = true →
        ∀ {source final : σ} {edited : Edited},
          engine.editRepetition (.expansion symbol children) depth position mode source =
            .ok edited final → Source.Clear source final →
          ∃ grown between, engine.Stages element (depth + 1) source [grown] between ∧
            edited = grown.elim (.unchanged (.expansion symbol children)) fun tree =>
              .changed (.expansion symbol (withRun position [tree]
                (if mode.deletes = true then children.eraseIdx position else children)))
  /-- A copy takes the element at the donor position, if there is one. -/
  copies : ∀ (symbol : Symbol) {children : List Tree} (donor : Tree) {position : Nat},
    position ≤ children.length → ∀ (donorPosition : Nat) (delete : Bool) (source : σ),
      ∃ spliced final,
        engine.spliceRepetition (.expansion symbol children) donor position donorPosition delete
          source = .ok spliced final ∧
        (Source.Clear source final → spliced = .changed (.expansion symbol
          (withRun position ((donor.children.drop donorPosition).take 1)
            (if delete = true then children.eraseIdx position else children))))

/-- At a probability of zero an engine handles one element at a time, in each of the ways in which
it edits and copies runs. -/
theorem Engine.oneByOne {engine : Engine}
    (zero : (engine.settings.repeatProbability == 0) = true) : engine.OneByOne σ where
  deletes carried depth _ _ inside source :=
    editRepetition_delete_single zero carried depth inside source
  inserts carried _ _ _ inside _ inserts _ _ _ ended clear :=
    editRepetition_insert_single zero carried inside inserts ended clear
  copies symbol _ donor _ inside donorPosition delete source :=
    spliceRepetition_single zero symbol donor inside donorPosition delete source

/-- A probability of zero means never, unless zero is drawn. If no zero can be drawn on the way, a
request whose successes are not to be followed by others has one success at most, an engine whose
runs are not to go on handles one element at a time, and every repetition has one child that grows
for a grammar whose repetitions are not to go on. Whatever is drawn, no request is answered by a new
growth if none is to be, and copies between repetitions delete nothing if they are not to. -/
theorem never_at_zero_unless_drawn (declarations : List Declaration) (mutator : Mutator) :
    ((mutator.engine.settings.continueProbability == 0) = true →
      ∀ (corpus : Nat → Corpus) (journal final : Journal σ) (answer : Mutator × Bytes),
        mutator.mutateAmid corpus journal = .ok answer final →
        Source.Clear journal.source final.source →
        answer.1.tally.successes.total ≤ mutator.tally.successes.total + 1) ∧
    ((mutator.engine.settings.repeatProbability == 0) = true → mutator.engine.OneByOne σ) ∧
    (∀ grammar, Grammar.ofDeclarations declarations = .ok grammar →
      (grammar.repeatProbability == 0) = true →
      ∀ (patience : Nat) (symbol : Symbol) (depth : Nat) (source final : σ) (tree : Tree),
        grammar.grow patience symbol depth source = .ok (some tree) final →
        Source.Clear source final → tree.Everywhere Grammar.Single) ∧
    ((mutator.engine.settings.regenerateProbability == 0) = true →
      ∀ corpus : Nat → Corpus,
        Ends (mutator.mutateAmid corpus : Trial MutationError σ (Mutator × Bytes))
          (fun answer => answer.1.tally.regenerations = mutator.tally.regenerations)
          fun _ => True) ∧
    ((mutator.engine.settings.repeatSpliceDeleteProbability == 0) = true →
      ∀ (corpus : Corpus) (tree : Tree) (held : List Candidate),
        Ends (mutator.engine.repeatSplice corpus (mutator.engine.sites tree) tree held :
            Chance σ Attempt)
          (fun attempt => attempt.edited.Turns tree fun result =>
            ∃ run, Engine.PutsIn run tree result) fun _ => False) := by
  refine ⟨?successes, Engine.oneByOne, ?growth, ?regenerations, ?copies⟩
  case successes =>
    intro zero corpus journal final answer
    exact Mutator.mutateAmid_single zero corpus
  case growth =>
    intro grammar built zero patience symbol depth source final tree
    exact Grammar.grow_single (Grammar.wellFormed_of_ofDeclarations built) zero
  case regenerations =>
    intro zero corpus
    exact Mutator.mutateAmid_unregenerated zero corpus
  case copies =>
    intro zero corpus tree held
    exact Engine.repeatSplice_putsIn zero corpus tree held

/-- The calls that declare binary numerals whose runs of digits are not to go on. -/
def Grammar.singleNumerals.declarations : List Declaration :=
  numerals.declarations ++ [.repeatProbability 0]

/-- Binary numerals whose runs of digits are not to go on. -/
def Grammar.singleNumerals : Grammar :=
  { numerals with repeatProbability := 0 }

/-- An engine for binary numerals all of whose probabilities are zero. It inserts digits, and a
request may make three attempts. -/
def Engine.ofZeros : Engine where
  grammar := .singleNumerals
  settings := { Workbench.editing ⟨0, 0, 1⟩ with
    maxMutationAttempts := 3, repeatProbability := 0, repeatSpliceDeleteProbability := 0 }
  root := ofDigits.root
  patience := 2

/-- A mutator with the engine, to which the numeral of zero is bound. -/
def Mutator.ofZeros : Mutator where
  engine := .ofZeros
  bound := some (Engine.numeral [48])

/-- A source of words that are not zero, which records what is drawn from it. -/
def nonzeroWords : Source.Recorded Script where
  source := Workbench.scripted
    [9223372036854775808, 18446744073709551615, 9223372036854775808, 4611686018427387904,
      9223372036854775808, 4611686020574871552, 18446744073709551615, 9223372036854775808]

/-- No zero is drawn. A request has one success and no regeneration; of three digits the middle one
is deleted; a single growth is attempted for an insertion; one digit of a donor is copied; a numeral
grows with one digit; and a copy between numerals deletes nothing. -/
theorem never_at_zero_unless_drawn_numerals :
    (∃ answer final,
      Mutator.ofZeros.mutateAmid (fun _ => .unbounded) { source := nonzeroWords } =
        .ok answer final ∧
      Source.Clear nonzeroWords final.source ∧ answer.1.tally.successes.total = 1 ∧
      answer.1.tally.regenerations = 0) ∧
    (∃ final, Engine.ofZeros.editRepetition (Engine.numeral [48, 49, 49]) 0 1 .delete nonzeroWords =
      .ok (.changed (Engine.numeral [48, 49])) final) ∧
    (∃ grown between, Engine.ofZeros.Stages (.plain 1 "digit") 1 nonzeroWords [grown] between) ∧
    (∃ final, Engine.ofZeros.spliceRepetition (Engine.numeral [48]) (Engine.numeral [49, 49]) 0 0
      false nonzeroWords = .ok (.changed (Engine.numeral [48, 49])) final) ∧
    (∃ tree final, Grammar.singleNumerals.grow 2 Engine.ofDigits.root 0 nonzeroWords =
      .ok (some tree) final ∧ tree.Everywhere Grammar.Single) ∧
    ∃ attempt final result run, Engine.ofZeros.repeatSplice Engine.ofNumeral
        (Engine.ofZeros.sites (Engine.numeral [48])) (Engine.numeral [48]) [] nonzeroWords =
          .ok attempt final ∧ attempt.edited = .changed result ∧
        Engine.PutsIn run (Engine.numeral [48]) result := by
  obtain ⟨successes, single, growth, regenerations, copies⟩ :=
    never_at_zero_unless_drawn (σ := Source.Recorded Script)
      Grammar.singleNumerals.declarations .ofZeros
  have zeros : Engine.ofZeros.OneByOne (Source.Recorded Script) := single (by decide +kernel)
  have carried : Engine.ofDigits.root.element? = some (.plain 1 "digit") := rfl
  have nowhere : 0 ≤ (Engine.digits [48]).length := Nat.zero_le _
  refine ⟨?request, ?deleted, ?inserted, ?copied, ?grown, ?spliced⟩
  case request =>
    let journal : Journal (Source.Recorded Script) := { source := nonzeroWords }
    obtain ⟨answer, final, returns, productive, clear⟩ := Source.Recorded.exists_clear
      Journal.source (Mutator.ofZeros.mutateAmid fun _ => .unbounded) journal
      (fun answer => decide (1 ≤ answer.1.tally.successes.total)) (by decide +kernel)
    have most := successes (by decide +kernel) _ _ final answer returns clear
    have regenerated := regenerations (by decide +kernel) (fun _ => .unbounded) journal
    rw [returns] at regenerated
    exact ⟨answer, final, returns, clear,
      Nat.le_antisymm most (of_decide_eq_true productive), regenerated⟩
  case deleted =>
    have inside : 1 ≤ (Engine.digits [48, 49, 49]).length := by decide
    obtain ⟨edited, final, ended, deletes⟩ := zeros.deletes carried 0 inside nonzeroWords
    obtain ⟨_, _, again, -, clear⟩ := Source.Recorded.exists_clear id
      (Engine.ofZeros.editRepetition (Engine.numeral [48, 49, 49]) 0 1 .delete) nonzeroWords
      (fun _ => true) (by decide +kernel)
    cases again.symm.trans ended
    obtain rfl := deletes clear
    exact ⟨final, ended⟩
  case inserted =>
    obtain ⟨edited, final, ended, -, clear⟩ := Source.Recorded.exists_clear id
      (Engine.ofZeros.editRepetition (Engine.numeral [48]) 0 0 .insert) nonzeroWords
      (fun _ => true) (by decide +kernel)
    obtain ⟨grown, between, run, -⟩ := zeros.inserts carried nowhere rfl ended clear
    exact ⟨grown, between, run⟩
  case copied =>
    obtain ⟨spliced, final, ended, copies⟩ := zeros.copies Engine.ofDigits.root
      (Engine.numeral [49, 49]) nowhere 0 false nonzeroWords
    obtain ⟨_, _, again, -, clear⟩ := Source.Recorded.exists_clear id
      (Engine.ofZeros.spliceRepetition (Engine.numeral [48]) (Engine.numeral [49, 49]) 0 0 false)
      nonzeroWords (fun _ => true) (by decide +kernel)
    cases again.symm.trans ended
    obtain rfl := copies clear
    exact ⟨final, ended⟩
  case grown =>
    have built : Grammar.ofDeclarations Grammar.singleNumerals.declarations =
        .ok Grammar.singleNumerals := rfl
    obtain ⟨grown, final, ended, some, clear⟩ := Source.Recorded.exists_clear id
      (Grammar.singleNumerals.grow 2 Engine.ofDigits.root 0) nonzeroWords Option.isSome
      (by decide +kernel)
    obtain ⟨tree, rfl⟩ := Option.isSome_iff_exists.mp some
    exact ⟨tree, final, ended, growth _ built (by decide +kernel) 2 _ 0 _ final tree ended clear⟩
  case spliced =>
    have ends := copies (by decide +kernel) Engine.ofNumeral (Engine.numeral [48]) []
    obtain ⟨attempt, final, ended, applied, turns⟩ :=
      ends.exists_answer nonzeroWords (fun attempt => attempt.edited.applied) (by decide +kernel)
    obtain unchanged | ⟨result, changed, run, putIn⟩ := turns
    · rw [unchanged] at applied
      cases applied
    · exact ⟨attempt, final, result, run, ended, changed, putIn⟩

/-- With a probability of zero a numeral grows with two digits if zero is drawn in between. -/
theorem zero_drawn_goes_on :
    Grammar.ofDeclarations Grammar.singleNumerals.declarations = .ok Grammar.singleNumerals ∧
    (Grammar.singleNumerals.repeatProbability == 0) = true ∧
    ∃ (source : Script) (tree : Tree) (final : Script),
      Grammar.singleNumerals.grow 2 Engine.ofDigits.root 0 source = .ok (some tree) final ∧
      ¬ tree.Everywhere Grammar.Single := by
  refine ⟨rfl, by decide +kernel, Workbench.scripted [0, 0, 0, 18446744073709551615],
    Engine.numeral [48, 48], ?_⟩
  exact ⟨_, rfl, by decide⟩

end Graft
