import Graft.Grammar.Growth
import Graft.Proofs.Grammar.Table
import Graft.Proofs.Outcome

/-!
# What grows

The trees that a symbol can grow into within a budget of levels are described
without reference to chance: a row of the symbol's alternatives part by part, or
one or more elements of a repetition. Whatever is drawn, growth yields such a
tree or nothing, unless it is abandoned because a repetition outlasts the
patience, or because the grammar sets no limit to the depth.
-/

namespace Graft.Grammar

open Graft.Random

/-- What a tree has to be to stand for a part of a row, given what it has to be to stand
for a symbol. -/
def Fits (grammar : Grammar) (stands : Symbol → Tree → Prop) : Part → Tree → Prop
  | .literal octets, tree => tree = .text octets
  | .symbol id, tree => ∃ symbol, grammar.symbols[id]? = some symbol ∧ stands symbol tree

/-- The trees that a symbol grows into with a budget of levels, its own included. -/
def Grows (grammar : Grammar) : (budget : Nat) → Symbol → Tree → Prop
  | 0, _, _ => False
  | budget + 1, symbol, tree =>
    ∃ children, tree = .expansion symbol children ∧
      match grammar.productions[symbol.id]? with
      | none => False
      | some (.alternatives rows) =>
        ∃ row ∈ rows, List.Forall₂ (grammar.Fits (Grows grammar budget)) row children
      | some (.repetition _) =>
        children ≠ [] ∧
          ∃ element, symbol.element? = some element ∧
            ∀ child ∈ children, Grows grammar budget element child

/-- The trees that a symbol grows into as a node of the given depth: those of the grammar's
own symbol of its number, which must bear its name, within the levels that are left. -/
def GrowsAt (grammar : Grammar) (symbol : Symbol) (depth : Nat) (tree : Tree) : Prop :=
  ∃ own, grammar.symbols[symbol.id]? = some own ∧ own.name = symbol.name ∧
    grammar.Grows (grammar.maxDepth + 1 - depth) own tree

/-- Why growth may be abandoned. Either cause stands for growth without an end: a
repetition that goes on beyond every limit, or levels below every limit. -/
def Abandons (grammar : Grammar) : Fault → Prop
  | .patienceExhausted => True
  | .depthUncountable => Depth.greatest ≤ grammar.maxDepth
  | _ => False

variable {σ : Type} {grammar : Grammar} {stops : Fault → Prop}

/-- A row grows part by part if its symbols do. A part that does not grow ends the row without a
result, and none of the later parts is grown. -/
theorem growRow_ends {grow : Symbol → Chance σ (Option Tree)} {stands : Symbol → Tree → Prop}
    (grows : ∀ symbol, Ends (grow symbol)
      (fun grown => ∀ tree, grown = some tree → stands symbol tree) stops)
    (parts : List Part) :
    Ends (grammar.growRow grow parts)
      (fun grown => ∀ trees, grown = some trees →
        List.Forall₂ (grammar.Fits stands) parts trees) stops := by
  induction parts with
  | nil => exact Ends.pure fun trees grown => by cases grown; exact .nil
  | cons part parts inductionHypothesis =>
    cases part with
    | literal octets =>
      refine Ends.bind inductionHypothesis fun rest known => Ends.pure fun trees grown => ?_
      obtain ⟨others, rfl, rfl⟩ := Option.map_eq_some_iff.mp grown
      exact .cons rfl (known others rfl)
    | symbol id =>
      unfold growRow
      split
      · exact Ends.nothing rfl
      · next symbol found =>
        refine Ends.bind (grows symbol) fun first knownFirst => ?_
        cases first with
        | none => exact Ends.nothing rfl
        | some tree =>
          refine Ends.bind inductionHypothesis fun rest known => Ends.pure fun trees grown => ?_
          obtain ⟨others, rfl, rfl⟩ := Option.map_eq_some_iff.mp grown
          exact .cons ⟨symbol, found, knownFirst tree rfl⟩ (known others rfl)

variable [Source σ]

/-- A run grows one element at least if its element grows, for whether to go on is drawn behind each
element. -/
theorem growRun_ends {grow : Chance σ (Option Tree)} {stands : Tree → Prop}
    (probability : Float)
    (grows : Ends grow (fun grown => ∀ tree, grown = some tree → stands tree) stops)
    (exhausted : stops .patienceExhausted) (patience : Nat) :
    Ends (growRun probability grow patience)
      (fun grown => ∀ trees, grown = some trees → trees ≠ [] ∧ ∀ tree ∈ trees, stands tree)
      stops := by
  induction patience with
  | zero => exact Ends.throw exhausted
  | succ patience inductionHypothesis =>
    refine Ends.bind grows fun first known => ?_
    cases first with
    | none => exact Ends.nothing rfl
    | some tree =>
      refine Ends.bind Chance.fraction_ends fun fraction _ => ?_
      split
      · refine Ends.pure fun trees grown => ?_
        cases grown
        exact ⟨by simp, by simpa using known tree rfl⟩
      · refine Ends.bind inductionHypothesis fun rest knownRest => Ends.pure fun trees grown => ?_
        obtain ⟨others, rfl, rfl⟩ := Option.map_eq_some_iff.mp grown
        refine ⟨by simp, fun other member => ?_⟩
        rcases List.mem_cons.mp member with rfl | later
        · exact known other rfl
        · exact (knownRest others rfl).2 other later

/-- A symbol of the table grows into the trees described. The induction is on the budget:
rows and runs spend one level on the node above them. -/
theorem growNode_ends (patience budget : Nat) (symbol : Symbol) :
    Ends (grammar.growNode patience budget symbol : Chance σ (Option Tree))
      (fun grown => ∀ tree, grown = some tree → grammar.Grows budget symbol tree)
      grammar.Abandons := by
  induction budget generalizing symbol with
  | zero =>
    unfold growNode
    split
    · exact Ends.nothing rfl
    · next unlimited => exact Ends.throw (Nat.le_of_not_gt unlimited)
  | succ budget inductionHypothesis =>
    unfold growNode
    split
    · exact Ends.nothing rfl
    · exact Ends.nothing rfl
    · next rows inhabited produced =>
      have positive : 0 < rows.length := List.length_pos_iff.mpr fun empty => inhabited empty
      refine Ends.bind (Chance.below_ends positive) fun place inside => ?_
      rw [List.getElem?_eq_getElem inside]
      refine Ends.bind (growRow_ends inductionHypothesis rows[place]) fun row known => ?_
      refine Ends.pure fun tree grown => ?_
      obtain ⟨children, rfl, rfl⟩ := Option.map_eq_some_iff.mp grown
      refine ⟨children, rfl, ?_⟩
      simp only [produced]
      exact ⟨rows[place], List.getElem_mem inside, known children rfl⟩
    · next repeated produced =>
      split
      · exact Ends.nothing rfl
      · next element carried =>
        refine Ends.bind (growRun_ends grammar.repeatProbability (inductionHypothesis element)
          trivial patience) fun run known => Ends.pure fun tree grown => ?_
        obtain ⟨children, rfl, rfl⟩ := Option.map_eq_some_iff.mp grown
        obtain ⟨inhabited, grows⟩ := known children rfl
        refine ⟨children, rfl, ?_⟩
        simp only [produced]
        exact ⟨inhabited, element, carried, grows⟩

/-- A symbol grows into the trees described for its depth. The levels that are left are the budget,
and a symbol that is not the table's does not grow. -/
theorem grow_ends (patience : Nat) (symbol : Symbol) (depth : Nat) :
    Ends (grammar.grow patience symbol depth : Chance σ (Option Tree))
      (fun grown => ∀ tree, grown = some tree → grammar.GrowsAt symbol depth tree)
      grammar.Abandons := by
  unfold grow
  split
  · exact Ends.nothing rfl
  · next own found =>
    split
    · next named =>
      refine (growNode_ends patience _ own).mono ?_ fun _ stop => stop
      exact fun grown known tree present =>
        ⟨own, found, by simpa using named, known tree present⟩
    · exact Ends.nothing rfl

end Graft.Grammar
