import Graft.Proofs.Grammar.Derivation
import Graft.Proofs.Random.Replay

/-!
# Every derivation grows

For each derivation within the greatest depth there are words on which its symbol
grows into just that tree. They are put together along the derivation: words that
choose the row, or after each element a word on which the repetition goes on or
stops, with the words of the children between them in the order of their growth.

The words do not depend on the patience. They are replayed by every growth whose
patience is no less than the number of nodes in the tree.
-/

namespace Graft

namespace Tree

/-- A tree has one node at least, its root. A script for a run may therefore count a node for each
of its elements. -/
theorem count_pos (tree : Tree) : 0 < tree.count := by
  cases tree with
  | text octets => exact Nat.one_pos
  | expansion symbol children =>
    rw [count]
    omega

/-- A row has no fewer nodes than trees, so that whoever has patience for the nodes has it for the
trees. -/
theorem length_le_countAll (trees : List Tree) : trees.length ≤ countAll trees := by
  induction trees with
  | nil => exact Nat.le_refl 0
  | cons tree rest inductionHypothesis =>
    have first := tree.count_pos
    simp only [List.length_cons, countAll]
    omega

end Tree

namespace Grammar

open Graft.Random Chance

/-- There are words on which the growth comes to this result, with every patience from the given
one on. -/
def Scripted {α : Type} (growth : Nat → Chance Script (Option α)) (enough : Nat) (result : α) :
    Prop :=
  ∃ words, ∀ patience, enough ≤ patience → (growth patience).Replays words (some result)

variable {grammar : Grammar}

/-- A row is scripted if its symbols are. Their words are put one after the other, and a literal
takes none. -/
theorem growRow_scripted {grow : Nat → Symbol → Chance Script (Option Tree)} {parts : List Part}
    {trees : List Tree}
    (fits : List.Forall₂ (grammar.Fits fun symbol tree =>
      Scripted (fun patience => grow patience symbol) tree.count tree) parts trees) :
    Scripted (fun patience => grammar.growRow (grow patience) parts) (Tree.countAll trees)
      trees := by
  induction fits with
  | nil => exact ⟨[], fun patience _ => .pure (some [])⟩
  | @cons part tree parts trees fitted _ inductionHypothesis =>
    obtain ⟨further, others⟩ := inductionHypothesis
    cases part with
    | literal octets =>
      obtain rfl : tree = .text octets := fitted
      refine ⟨further, fun patience enough => ?_⟩
      rw [Tree.countAll] at enough
      exact (others patience (by omega)).thenPure _
    | symbol id =>
      obtain ⟨symbol, found, words, first⟩ := fitted
      refine ⟨words ++ further, fun patience enough => ?_⟩
      rw [Tree.countAll] at enough
      simp only [growRow, found]
      exact (first patience (by omega)).bind ((others patience (by omega)).thenPure _)

/-- A run is scripted if its elements are: a word to go on after each of them but the last, and a
word to stop after that one. -/
theorem growRun_scripted {probability : Float} {goesOn stops : UInt64}
    (further : ¬ probability < unitFraction goesOn) (ends : probability < unitFraction stops)
    {grow : Nat → Chance Script (Option Tree)} {trees : List Tree} (nonempty : trees ≠ [])
    (each : ∀ tree ∈ trees, Scripted grow tree.count tree) :
    ∃ words, ∀ patience limit, Tree.countAll trees ≤ patience → trees.length ≤ limit →
      (growRun probability (grow patience) limit).Replays words (some trees) := by
  induction trees with
  | nil => exact absurd rfl nonempty
  | cons tree rest inductionHypothesis =>
    obtain ⟨words, first⟩ := each tree List.mem_cons_self
    by_cases last : rest = []
    · subst last
      refine ⟨words ++ ([stops] ++ []), fun patience limit enough room => ?_⟩
      obtain ⟨limit, rfl⟩ := Nat.exists_eq_succ_of_ne_zero (Nat.pos_iff_ne_zero.mp room)
      rw [Tree.countAll] at enough
      refine (first patience (by omega)).bind ((fraction_replays stops).bind ?_)
      simp only [ends, ↓reduceIte]
      exact .pure (some [tree])
    · obtain ⟨following, others⟩ :=
        inductionHypothesis last fun other later => each other (List.mem_cons_of_mem _ later)
      refine ⟨words ++ ([goesOn] ++ following), fun patience limit enough room => ?_⟩
      rw [List.length_cons] at room
      obtain ⟨limit, rfl⟩ : ∃ fewer, limit = fewer + 1 := ⟨limit - 1, by omega⟩
      rw [Tree.countAll] at enough
      refine (first patience (by omega)).bind ((fraction_replays goesOn).bind ?_)
      simp only [further, ↓reduceIte]
      exact (others patience limit (by omega) (by omega)).thenPure _

/-- What a symbol of the table grows into is scripted. The induction is on the budget: the
children grow with one level less. -/
theorem growNode_scripted (wellFormed : grammar.WellFormed) {goesOn stops : UInt64}
    (further : ¬ grammar.repeatProbability < unitFraction goesOn)
    (ends : grammar.repeatProbability < unitFraction stops)
    (narrow : ∀ rows, .alternatives rows ∈ grammar.productions → rows.length < wholeWords)
    {budget : Nat} {symbol : Symbol} {tree : Tree} (owned : grammar.Owns symbol)
    (grows : grammar.Grows budget symbol tree) :
    Scripted (fun patience => grammar.growNode patience budget symbol) tree.count tree := by
  induction budget generalizing symbol tree with
  | zero => cases grows
  | succ budget inductionHypothesis =>
    obtain ⟨children, rfl, -⟩ := id grows
    have count : (Tree.expansion symbol children).count = 1 + Tree.countAll children := by
      rw [Tree.count]
    cases grows.over wellFormed owned with
    | row _ _ rows row _ produced plain member fits =>
      obtain ⟨place, inside, rfl⟩ := List.mem_iff_getElem.mp member
      obtain ⟨choice, chosen⟩ :=
        exists_below_replays inside (narrow rows (List.mem_of_getElem? produced))
      have scripted : List.Forall₂ (grammar.Fits fun label child =>
          Scripted (fun patience => grammar.growNode patience budget label) child.count child)
          rows[place] children := by
        refine fits.imp fun part child fitted => Fits.mono fitted fun id label found grown => ?_
        exact inductionHypothesis (wellFormed.numbered label (List.mem_of_getElem? found)) grown
      obtain ⟨words, row⟩ := growRow_scripted scripted
      refine ⟨choice ++ words, fun patience enough => ?_⟩
      obtain ⟨first, others, rfl⟩ := List.exists_cons_of_length_pos (Nat.zero_lt_of_lt inside)
      simp only [growNode, produced]
      refine chosen.bind ?_
      rw [List.getElem?_eq_getElem inside]
      exact (row patience (by omega)).thenPure _
    | run _ _ element production _ produced carried ownsElement nonempty each =>
      obtain ⟨rfl, -⟩ := wellFormed.repeats_of_element? owned produced carried
      obtain ⟨words, run⟩ := growRun_scripted further ends nonempty fun child member =>
        inductionHypothesis ownsElement (each child member)
      refine ⟨words, fun patience enough => ?_⟩
      have room : children.length ≤ patience := by
        have fewer := Tree.length_le_countAll children
        omega
      simp only [growNode, produced, carried]
      exact (run patience patience (by omega) room).thenPure _

/-- A declared grammar goes on repeating on the word that is zero. Its fraction is zero, and a
probability that is accepted is not below that. -/
theorem goesOn_of_ofDeclarations {declarations : List Declaration}
    (built : ofDeclarations declarations = .ok grammar) :
    ¬ grammar.repeatProbability < unitFraction 0 := by
  obtain ⟨⟨nonNegative, -⟩, -, -, kept⟩ := ofDraft_eq_ok_iff.mp built
  rw [unitFraction_zero, kept]
  exact Double.not_lt_zero nonNegative

/-- Every derivation grows. If some draw ends a repetition and no symbol has more rows than a
word can tell apart, then for each derivation within the greatest depth there are words on
which its symbol grows into that tree. The growth takes these words and no others, and what
comes after them does not matter; nor does the patience, if it is no less than the number of
nodes. -/
theorem derivations_grow {declarations : List Declaration}
    (built : ofDeclarations declarations = .ok grammar)
    (stoppable : ∃ word, grammar.repeatProbability < unitFraction word)
    (narrow : ∀ rows, .alternatives rows ∈ grammar.productions → rows.length < wholeWords)
    {symbol : Symbol} {depth : Nat} {tree : Tree} (derives : grammar.Derives symbol tree)
    (within : tree.DepthWithin depth grammar.maxDepth) :
    ∃ words : List UInt64, ∀ patience, tree.count ≤ patience →
      ∀ (rest : List UInt64) (generator : Generator) (draws : Nat),
        grammar.grow patience symbol depth (⟨words ++ rest, generator, draws⟩ : Script) =
          .ok (some tree) ⟨rest, generator, draws + words.length⟩ := by
  have wellFormed := wellFormed_of_ofDeclarations built
  have owned : grammar.Owns symbol := derives.owns
  obtain ⟨stops, ends⟩ := stoppable
  have grows : grammar.Grows (grammar.maxDepth + 1 - depth) symbol tree :=
    derives.grows wellFormed within (by omega)
  obtain ⟨words, scripted⟩ :=
    growNode_scripted wellFormed (goesOn_of_ofDeclarations built) ends narrow owned grows
  refine ⟨words, fun patience enough => ?_⟩
  have found : grammar.symbols[symbol.id]? = some symbol := owned
  simp only [grow, found, beq_self_eq_true, ↓reduceIte]
  exact scripted patience enough

/-- The binary numeral of two. -/
def two : Tree :=
  .expansion (.repetition 0 "list" (.plain 1 "digit"))
    [.expansion (.plain 1 "digit") [.text [49]], .expansion (.plain 1 "digit") [.text [48]]]

/-- Two grows with its digits at the greatest depth. -/
theorem derivations_grow_two :
    numerals.Derives (.repetition 0 "list" (.plain 1 "digit")) two ∧
      ∃ words : List UInt64, ∀ (rest : List UInt64) (generator : Generator) (draws : Nat),
        numerals.grow 5 (.repetition 0 "list" (.plain 1 "digit")) 99
            (⟨words ++ rest, generator, draws⟩ : Script) =
          .ok (some two) ⟨rest, generator, draws + words.length⟩ := by
  have derives : numerals.Derives (.repetition 0 "list" (.plain 1 "digit")) two := by decide
  have stoppable : ∃ word, numerals.repeatProbability < unitFraction word :=
    ⟨0xffffffffffffffff, by decide +kernel⟩
  have narrow : ∀ rows, .alternatives rows ∈ numerals.productions → rows.length < wholeWords := by
    simp [numerals, wholeWords]
  have within : two.DepthWithin 99 numerals.maxDepth := by
    simp [two, numerals, Tree.depthWithin_expansion, Tree.depthWithin_text]
  obtain ⟨words, grown⟩ :=
    derivations_grow ofDeclarations_numerals stoppable narrow derives within
  exact ⟨derives, words, grown 5 (by decide)⟩

end Grammar

end Graft
