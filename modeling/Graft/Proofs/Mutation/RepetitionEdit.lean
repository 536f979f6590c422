import Graft.Proofs.Grammar.Derivation
import Graft.Proofs.Mutation.Streak
import Graft.Random.Script
import Mathlib.Data.List.ReduceOption

/-!
# What an edit of a repetition makes

On a given source an edit first grows elements, one more for each draw that says so, and
leaves out those that fail. Then it deletes a run from the position on, if its mode deletes.
Then it puts the elements in after the position, or at the end where nothing is left there.
An edit that is to insert and has nothing to insert is refused and deletes nothing.
-/

namespace Graft

/-- Elements are put in behind the one at the position, or behind all of them, if there is none at
it. -/
theorem withRun_eq (position : Nat) (elements children : List Tree) :
    withRun position elements children =
      if position < children.length then
        children.take (position + 1) ++ elements ++ children.drop (position + 1)
      else children ++ elements := by
  by_cases before : position < children.length
  · simp only [withRun, before, ↓reduceIte]
  · have all : children.length ≤ position := Nat.le_of_not_lt before
    simp only [withRun, before, ↓reduceIte, List.take_of_length_le all,
      List.drop_of_length_le all, List.append_nil]

/-- Of outcomes those that failed are left out one by one, as the loop does it. -/
theorem reduceOption_cons (grown : Option Tree) (outcomes : List (Option Tree)) :
    (grown :: outcomes).reduceOption = grown.toList ++ outcomes.reduceOption := by
  cases grown <;> rfl

namespace Engine

open Graft.Random

variable {σ : Type} [Source σ]

/-- A run of growths on a source: one, and one more after each draw that says so. What each of
them came to is listed in order, the failures included. -/
inductive Stages (engine : Engine) (element : Symbol) (depth : Nat) :
    σ → List (Option Tree) → σ → Prop where
  | last (source reached : σ) (grown : Option Tree)
      (grows : engine.grow element depth source = .ok grown reached)
      (ends : ¬ engine.Continues reached) :
      Stages engine element depth source [grown] (Source.after reached 1)
  | more (source reached final : σ) (grown : Option Tree) (outcomes : List (Option Tree))
      (grows : engine.grow element depth source = .ok grown reached)
      (further : engine.Continues reached)
      (rest : Stages engine element depth (Source.after reached 1) outcomes final) :
      Stages engine element depth source (grown :: outcomes) final

/-- What is staged are the growths of a run that succeed, and the patience is enough for the run.
The induction is on the patience, which bounds the run. -/
theorem stages_of_stage_eq_ok {engine : Engine} {element : Symbol} {depth patience : Nat}
    {source final : σ} {staged : List Tree}
    (ended : engine.stage element depth patience source = .ok staged final) :
    ∃ outcomes, engine.Stages element depth source outcomes final ∧
      outcomes.length ≤ patience ∧ staged = outcomes.reduceOption := by
  induction patience generalizing source staged with
  | zero => cases ended
  | succ patience inductionHypothesis =>
    rw [stage] at ended
    cases grows : engine.grow element depth source with
    | error fault reached =>
      rw [bind_of_error grows] at ended
      cases ended
    | ok grown reached =>
      rw [bind_of_ok grows, bind_of_ok (goesOn_eq engine reached)] at ended
      by_cases further : engine.Continues reached
      · simp only [further, decide_true, ↓reduceIte] at ended
        cases rest : engine.stage element depth patience (Source.after reached 1) with
        | error fault later =>
          rw [bind_of_error rest] at ended
          cases ended
        | ok others later =>
          rw [bind_of_ok rest] at ended
          cases ended
          obtain ⟨outcomes, run, enough, rfl⟩ := inductionHypothesis rest
          exact ⟨grown :: outcomes, .more _ _ _ _ _ grows further run,
            Nat.succ_le_succ enough, (reduceOption_cons grown outcomes).symm⟩
      · simp only [further, decide_false, Bool.false_eq_true, ↓reduceIte] at ended
        cases ended
        exact ⟨[grown], .last _ _ _ grows further, Nat.succ_le_succ (Nat.zero_le patience),
          (List.reduceOption_singleton grown).symm⟩

/-- A run of growths that the patience is enough for is staged. The induction is on the run, whose
last decision ends the loop as well. -/
theorem stage_eq_ok_of_stages {engine : Engine} {element : Symbol} {depth patience : Nat}
    {source final : σ} {outcomes : List (Option Tree)}
    (run : engine.Stages element depth source outcomes final)
    (enough : outcomes.length ≤ patience) :
    engine.stage element depth patience source = .ok outcomes.reduceOption final := by
  induction run generalizing patience with
  | last source reached grown grows ends =>
    obtain ⟨patience, rfl⟩ := Nat.exists_eq_succ_of_ne_zero (Nat.ne_zero_of_lt enough)
    rw [stage, bind_of_ok grows, bind_of_ok (goesOn_eq engine reached)]
    simp only [ends, decide_false, Bool.false_eq_true, ↓reduceIte, List.reduceOption_singleton]
    rfl
  | more source reached final grown outcomes grows further rest inductionHypothesis =>
    obtain ⟨patience, rfl⟩ := Nat.exists_eq_succ_of_ne_zero (Nat.ne_zero_of_lt enough)
    rw [stage, bind_of_ok grows, bind_of_ok (goesOn_eq engine reached)]
    simp only [further, decide_true, ↓reduceIte]
    rw [bind_of_ok (inductionHypothesis (Nat.le_of_succ_le_succ enough)), reduceOption_cons]
    rfl

/-- What is staged are the growths of a run that succeed if the mode inserts, and nothing else. A
mode that does not insert leaves the source as it was. -/
theorem stages_of_staging_eq_ok {engine : Engine} {element : Symbol} {depth : Nat}
    {mode : RepeatMode} {source between : σ} {staged : List Tree} (counted : depth < Depth.greatest)
    (ended : engine.staging element depth mode source = .ok staged between) :
    ∃ outcomes, staged = outcomes.reduceOption ∧
      if mode.inserts = true then engine.Stages element (depth + 1) source outcomes between
      else outcomes = [] ∧ between = source := by
  by_cases inserts : mode.inserts = true
  · simp only [staging, inserts, Depth.below, counted, ↓reduceIte] at ended ⊢
    obtain ⟨outcomes, run, -, kept⟩ := stages_of_stage_eq_ok ended
    exact ⟨outcomes, kept, run⟩
  · simp only [staging, inserts, Bool.false_eq_true, ↓reduceIte] at ended ⊢
    cases ended
    exact ⟨[], rfl, rfl, rfl⟩

/-- The run that is exchanged is as long as draws make it if the mode deletes, and empty if not.
Only the measuring draws, one word for each element of the run. -/
theorem exchange_eq (engine : Engine) {position : Nat} {children : List Tree}
    (inside : position ≤ children.length) {mode : RepeatMode} {staged : List Tree}
    (nothing : mode.inserts = false → staged = []) (source : σ) :
    ∃ count : Nat,
      (count : ℕ∞) = (if mode.deletes = true then
        min ((children.length - position : Nat) : ℕ∞) (1 + engine.streak source) else 0) ∧
      engine.exchange position mode staged children source =
        .ok (withRun position staged (withoutRun position count children))
          (Source.after source count) := by
  by_cases deletes : mode.deletes = true
  · obtain ⟨count, counted, within, ended⟩ := deleteRun_eq engine inside source
    have placed : position ≤ (withoutRun position count children).length := by
      rw [length_withoutRun within]
      omega
    use count
    simp only [exchange, deletes, ↓reduceIte]
    use counted
    rw [bind_of_ok ended, insertion_eq nothing placed]
    rfl
  · use 0
    simp only [exchange, deletes, Bool.false_eq_true, ↓reduceIte, pure_bind, withoutRun_zero,
      insertion_eq nothing inside]
    exact ⟨rfl, rfl⟩

/-- On every source the edit of a repetition either is abandoned while it grows elements, for want
of a run that the patience is enough for, or comes to this. If it is to insert it grows a run of
elements, one level below; those that grew are derivations. If there are none of them it is
refused and hands back the node as it is. Otherwise it deletes a run from the position on, as long
as draws make it, if it is to delete, and puts the elements that grew in behind the one at the
position, or behind all where none is left there. The rest keeps its order. -/
theorem editRepetition_exact {declarations : List Declaration} {engine : Engine}
    (built : Grammar.ofDeclarations declarations = .ok engine.grammar) {symbol element : Symbol}
    (carried : symbol.element? = some element) {depth : Nat} (counted : depth < Depth.greatest)
    {position : Nat} {children : List Tree} (inside : position ≤ children.length)
    (mode : RepeatMode) (source : σ) :
    match engine.editRepetition (.expansion symbol children) depth position mode source with
    | .error fault _ => mode.inserts = true ∧ engine.grammar.Abandons fault ∧
        ∀ outcomes between, engine.Stages element (depth + 1) source outcomes between →
          engine.patience < outcomes.length
    | .ok edited final => ∃ outcomes between staged,
        staged = outcomes.reduceOption ∧
        (if mode.inserts = true then engine.Stages element (depth + 1) source outcomes between
          else outcomes = [] ∧ between = source) ∧
        (∀ tree ∈ staged, engine.grammar.DerivesAt element (depth + 1) tree ∧
          (engine.grammar.Owns element → engine.grammar.Derives element tree)) ∧
        if mode.inserts = true ∧ staged = [] then
          edited = .unchanged (.expansion symbol children) ∧ final = between
        else ∃ count : Nat,
          (count : ℕ∞) = (if mode.deletes = true then
            min ((children.length - position : Nat) : ℕ∞) (1 + engine.streak between) else 0) ∧
          final = Source.after between count ∧
          edited = .changed (.expansion symbol
            (let left := children.take position ++ children.drop (position + count)
            if position < left.length then
              left.take (position + 1) ++ staged ++ left.drop (position + 1)
            else left ++ staged)) := by
  have wellFormed := Grammar.wellFormed_of_ofDeclarations built
  have known := staging_ends engine element depth mode source
  rw [editRepetition_eq engine carried]
  cases ended : engine.staging element depth mode source with
  | error fault between =>
    rw [ended] at known
    rw [bind_of_error ended]
    by_cases inserts : mode.inserts = true
    · use inserts
      constructor
      · rcases known with abandons | ⟨-, uncountable⟩
        · exact abandons
        · exact absurd counted (Nat.not_lt_of_le uncountable)
      · intro outcomes final run
        by_contra enough
        have staged := stage_eq_ok_of_stages run (Nat.le_of_not_lt enough)
        simp only [staging, inserts, Depth.below, counted, ↓reduceIte] at ended
        cases staged.symm.trans ended
    · rw [staging, if_neg inserts] at ended
      cases ended
  | ok staged between =>
    rw [ended] at known
    obtain ⟨nothing, grown⟩ := known
    obtain ⟨outcomes, kept, run⟩ := stages_of_staging_eq_ok counted ended
    have derives (tree : Tree) (member : tree ∈ staged) :
        engine.grammar.DerivesAt element (depth + 1) tree ∧
          (engine.grammar.Owns element → engine.grammar.Derives element tree) := by
      have derivesAt := (Grammar.growsAt_iff_derivesAt wellFormed).mp (grown tree member)
      exact ⟨derivesAt, derivesAt.derives⟩
    rw [bind_of_ok ended]
    by_cases refused : mode.inserts = true ∧ staged = []
    · rw [if_pos refused]
      use outcomes, between, staged, kept, run, derives
      rw [if_pos refused]
      exact ⟨rfl, rfl⟩
    · obtain ⟨count, length, exchanged⟩ := exchange_eq engine inside nothing between
      rw [if_neg refused, bind_of_ok exchanged]
      use outcomes, between, staged, kept, run, derives
      rw [if_neg refused]
      use count, length, rfl
      rw [withRun_eq]
      rfl

/-- The digits of a binary numeral. -/
def digits (octets : Bytes) : List Tree :=
  octets.map fun octet => .expansion (.plain 1 "digit") [.text [octet]]

/-- An engine for binary numerals. -/
def ofDigits : Engine where
  grammar := .numerals
  settings := { rootSymbol := "list" }
  root := .repetition 0 "list" (.plain 1 "digit")
  patience := 2

/-- The binary numeral of the digits. -/
def numeral (octets : Bytes) : Tree := .expansion ofDigits.root (digits octets)

/-- Two digits are grown, then the middle one of three is deleted and the new ones are put in
behind the last. -/
theorem editRepetition_exact_digits :
    Grammar.ofDeclarations Grammar.numerals.declarations = .ok ofDigits.grammar ∧
    ofDigits.root.element? = some (.plain 1 "digit") ∧ 0 < Depth.greatest ∧
    1 ≤ (digits [48, 49, 49]).length ∧
    ∃ (source between final : Script) (outcomes : List (Option Tree)) (count : Nat),
      ofDigits.editRepetition (.expansion ofDigits.root (digits [48, 49, 49])) 0 1
        .deleteThenInsert source =
          .ok (.changed (.expansion ofDigits.root (digits [48, 49, 48, 49]))) final ∧
      ofDigits.Stages (.plain 1 "digit") 1 source outcomes between ∧
      (∀ tree ∈ outcomes.reduceOption, Grammar.numerals.Derives (.plain 1 "digit") tree) ∧
      (count : ℕ∞) = min 2 (1 + ofDigits.streak between) ∧ final = Source.after between count := by
  let source : Script :=
    { words := [0, 0, 4294967295, 18446744073709551615, 18446744073709551615]
      generator := .splitMix ⟨0⟩ }
  have edited : ofDigits.editRepetition (.expansion ofDigits.root (digits [48, 49, 49])) 0 1
      .deleteThenInsert source =
        .ok (.changed (.expansion ofDigits.root (digits [48, 49, 48, 49])))
          { source with words := [], draws := 5 } := rfl
  have built : Grammar.ofDeclarations Grammar.numerals.declarations = .ok ofDigits.grammar :=
    Grammar.ofDeclarations_numerals
  have carried : ofDigits.root.element? = some (.plain 1 "digit") := rfl
  have counted : 0 < Depth.greatest := by decide
  have inside : 1 ≤ (digits [48, 49, 49]).length := by decide
  have exact := editRepetition_exact built carried counted inside .deleteThenInsert source
  rw [edited] at exact
  obtain ⟨outcomes, between, staged, rfl, run, derives, done⟩ := exact
  have owned : Grammar.numerals.Owns (.plain 1 "digit") := rfl
  by_cases refused : RepeatMode.deleteThenInsert.inserts = true ∧ outcomes.reduceOption = []
  · rw [if_pos refused] at done
    cases done.1
  · rw [if_neg refused] at done
    obtain ⟨count, length, reached, -⟩ := done
    exact ⟨built, carried, counted, inside, source, between, _, outcomes, count, edited, run,
      fun tree member => (derives tree member).2 owned, length, reached⟩

end Engine

end Graft
