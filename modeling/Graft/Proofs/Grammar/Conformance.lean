import Graft.Proofs.Grammar.Growth
import Graft.Proofs.Sample.RoundTrip

/-!
# Conformance

A tree conforms to a grammar if every inner node carries a symbol of the table
over children that its production permits. What permits them is seen without
looking below the children, so conformance is kept when a subtree is exchanged
for another conforming one of the same symbol. Whatever a symbol of the table
grows into conforms.

The children of a repetition are permitted one by one. Any selection of permitted
children is permitted again, in any order and any number, none included.
-/

namespace Graft

namespace Grammar

/-- The tree is an expansion of the symbol. -/
def Rooted (symbol : Symbol) (tree : Tree) : Prop :=
  tree.symbol? = some symbol

/-- The children that the production of a symbol of the table permits. -/
def Permits (grammar : Grammar) (symbol : Symbol) (children : List Tree) : Prop :=
  grammar.Owns symbol ∧
    match grammar.productions[symbol.id]? with
    | none => False
    | some (.alternatives rows) =>
      ∃ row ∈ rows, List.Forall₂ (grammar.Fits Rooted) row children
    | some (.repetition element) =>
      ∀ child ∈ children, grammar.Fits Rooted (.symbol element) child

end Grammar

/-- Every inner node carries a symbol of the grammar over children that its production
permits. -/
def Tree.Conforms (grammar : Grammar) (tree : Tree) : Prop :=
  tree.Everywhere grammar.Permits

namespace Grammar

variable {grammar : Grammar}

/-- A part is fitted by what stands for its symbol in a weaker sense. Only the symbols of the table
need be considered, as no part refers to another one. -/
theorem Fits.mono {strong weak : Symbol → Tree → Prop} {part : Part} {tree : Tree}
    (fits : grammar.Fits strong part tree)
    (weakens : ∀ id symbol, grammar.symbols[(id : Nat)]? = some symbol →
      strong symbol tree → weak symbol tree) : grammar.Fits weak part tree := by
  cases part with
  | literal octets => exact fits
  | symbol id =>
    obtain ⟨symbol, found, stands⟩ := fits
    exact ⟨symbol, found, weakens id symbol found stands⟩

/-- Of an inner node only the symbol decides what part it fits. A literal is fitted by no inner
node, whichever it is. -/
theorem Fits.congr {part : Part} {old new : Tree}
    (fits : grammar.Fits Rooted part old) (inner : old.symbol? ≠ none)
    (same : new.symbol? = old.symbol?) : grammar.Fits Rooted part new := by
  cases part with
  | literal octets =>
    obtain rfl : old = .text octets := fits
    exact absurd rfl inner
  | symbol id =>
    obtain ⟨symbol, found, stands⟩ := fits
    exact ⟨symbol, found, same.trans stands⟩

/-- What a production permits is seen without looking below the children. This is what lets an inner
node be exchanged for another one of its symbol. -/
theorem shallow_permits (grammar : Grammar) : Tree.Shallow grammar.Permits := by
  rintro symbol children position old new placed inner same ⟨owned, permitted⟩
  refine ⟨owned, ?_⟩
  split at permitted
  · exact permitted
  · obtain ⟨row, member, fits⟩ := permitted
    exact ⟨row, member, forall₂_set fits placed fun part fitted => fitted.congr inner same⟩
  · intro child member
    rcases List.mem_or_eq_of_mem_set member with present | rfl
    · exact permitted child present
    · exact (permitted old (List.mem_of_getElem? placed)).congr inner same

/-- The children of a repetition of the table are expansions of its element, however many and in
whatever order. That there are none is permitted as well. -/
theorem permits_iff_of_element? (wellFormed : grammar.WellFormed) {symbol element : Symbol}
    {production : Production} (owned : grammar.Owns symbol)
    (produced : grammar.productions[symbol.id]? = some production)
    (carried : symbol.element? = some element) (children : List Tree) :
    grammar.Permits symbol children ↔ ∀ child ∈ children, child.symbol? = some element := by
  obtain ⟨rfl, ownsElement⟩ := wellFormed.repeats_of_element? owned produced carried
  have found : grammar.symbols[element.id]? = some element := ownsElement
  simp only [Permits, owned, produced, Fits, Rooted, found, true_and, Option.some.injEq,
    exists_eq_left']

/-- A repetition of the table conforms exactly if its children are conforming expansions of its
element. Edits of its children are judged by this law. -/
theorem conforms_iff_of_element? (wellFormed : grammar.WellFormed) {symbol element : Symbol}
    {production : Production} (owned : grammar.Owns symbol)
    (produced : grammar.productions[symbol.id]? = some production)
    (carried : symbol.element? = some element) (children : List Tree) :
    (Tree.expansion symbol children).Conforms grammar ↔
      ∀ child ∈ children, child.symbol? = some element ∧ child.Conforms grammar := by
  rw [Tree.Conforms, Tree.everywhere_expansion,
    permits_iff_of_element? wellFormed owned produced carried]
  constructor
  · rintro ⟨rooted, below⟩ child member
    exact ⟨rooted child member, below child member⟩
  · intro each
    exact ⟨fun child member => (each child member).1, fun child member => (each child member).2⟩

/-- The production of a symbol that permits any children is in the table. A symbol without one
permits none, not even an empty row. -/
theorem Permits.produced {symbol : Symbol} {children : List Tree}
    (permits : grammar.Permits symbol children) :
    ∃ production, grammar.productions[symbol.id]? = some production := by
  cases produced : grammar.productions[symbol.id]? with
  | none => simp [Permits, produced] at permits
  | some production => exact ⟨production, rfl⟩

/-- What a symbol of the table grows into has that symbol at its root, since growth puts the symbol
that it was given above the children. -/
theorem Grows.symbol? {budget : Nat} {symbol : Symbol} {tree : Tree}
    (grows : grammar.Grows budget symbol tree) : tree.symbol? = some symbol := by
  cases budget with
  | zero => cases grows
  | succ budget =>
    obtain ⟨children, rfl, -⟩ := grows
    rfl

/-- The ways in which a symbol of the table grows with the given children, within a budget of
levels. -/
inductive GrowsOver (grammar : Grammar) : (budget : Nat) → Symbol → List Tree → Prop where
  /-- Over a row of its alternatives, part by part. It carries no element then. -/
  | row (budget : Nat) (symbol : Symbol) (rows : List (List Part)) (row : List Part)
      (children : List Tree)
      (produced : grammar.productions[symbol.id]? = some (.alternatives rows))
      (plain : symbol.element? = none) (member : row ∈ rows)
      (fits : List.Forall₂ (grammar.Fits (grammar.Grows budget)) row children) :
      GrowsOver grammar (budget + 1) symbol children
  /-- Over one or more of its element, which is in the table as well. -/
  | run (budget : Nat) (symbol element : Symbol) (production : Production) (children : List Tree)
      (produced : grammar.productions[symbol.id]? = some production)
      (carried : symbol.element? = some element) (owned : grammar.Owns element)
      (nonempty : children ≠ []) (grows : ∀ child ∈ children, grammar.Grows budget element child) :
      GrowsOver grammar (budget + 1) symbol children

/-- A symbol of the table grows in one of the two ways: over a row of its alternatives, or over a
run of its element. Which of them is decided by its production. -/
theorem Grows.over (wellFormed : grammar.WellFormed) {budget : Nat} {symbol : Symbol}
    {children : List Tree} (owned : grammar.Owns symbol)
    (grows : grammar.Grows budget symbol (.expansion symbol children)) :
    grammar.GrowsOver budget symbol children := by
  cases budget with
  | zero => cases grows
  | succ budget =>
    obtain ⟨_, ⟨⟩, grows⟩ := grows
    cases produced : grammar.productions[symbol.id]? with
    | none => simp [produced] at grows
    | some production =>
      cases production with
      | alternatives rows =>
        simp only [produced] at grows
        obtain ⟨row, member, fits⟩ := grows
        exact .row budget symbol rows row children produced
          (wellFormed.plain symbol rows owned produced) member fits
      | repetition id =>
        simp only [produced] at grows
        obtain ⟨nonempty, element, carried, grows⟩ := grows
        exact .run budget symbol element (.repetition id) children produced carried
          (wellFormed.repeats_of_element? owned produced carried).2 nonempty grows

/-- A child of what a symbol of the table grows into is a text or grows from a symbol of the table
with one level less. Inductions on the budget take their step with this law. -/
theorem Grows.child (wellFormed : grammar.WellFormed) {budget : Nat} {symbol : Symbol}
    {children : List Tree} (owned : grammar.Owns symbol)
    (grows : grammar.Grows (budget + 1) symbol (.expansion symbol children)) {child : Tree}
    (member : child ∈ children) :
    (∃ octets, child = .text octets) ∨
      ∃ below, grammar.Owns below ∧ grammar.Grows budget below child := by
  cases grows.over wellFormed owned with
  | row _ _ rows row _ produced plain present fits =>
    obtain ⟨part, -, fitted⟩ := related_of_mem fits member
    cases part with
    | literal octets => exact .inl ⟨octets, fitted⟩
    | symbol id =>
      obtain ⟨below, found, grown⟩ := fitted
      exact .inr ⟨below, wellFormed.numbered below (List.mem_of_getElem? found), grown⟩
  | run _ _ element production _ produced carried ownsElement nonempty grown =>
    exact .inr ⟨element, ownsElement, grown child member⟩

/-- The children with which a symbol of the table grows are permitted, as each fits its part by the
symbol at its root. -/
theorem Grows.permits (wellFormed : grammar.WellFormed) {budget : Nat} {symbol : Symbol}
    {children : List Tree} (owned : grammar.Owns symbol)
    (grows : grammar.Grows budget symbol (.expansion symbol children)) :
    grammar.Permits symbol children := by
  cases grows.over wellFormed owned with
  | row _ _ rows row _ produced plain present fits =>
    refine ⟨owned, ?_⟩
    simp only [produced]
    exact ⟨row, present, fits.imp fun part tree fitted =>
      Fits.mono fitted fun _ _ _ grown => Grows.symbol? grown⟩
  | run _ _ element production _ produced carried ownsElement nonempty grown =>
    exact (permits_iff_of_element? wellFormed owned produced carried children).mpr
      fun child member => (grown child member).symbol?

/-- A condition holds at every inner node of what grows from a symbol of the table if it holds at
the root of whatever does. The induction is on the budget, and every inner node is the root of
something that grows. -/
theorem Grows.everywhere (wellFormed : grammar.WellFormed) {holds : Symbol → List Tree → Prop}
    (root : ∀ {budget : Nat} {symbol : Symbol} {children : List Tree}, grammar.Owns symbol →
      grammar.Grows budget symbol (.expansion symbol children) → holds symbol children)
    {budget : Nat} {symbol : Symbol} {tree : Tree} (owned : grammar.Owns symbol)
    (grows : grammar.Grows budget symbol tree) : tree.Everywhere holds := by
  induction budget generalizing symbol tree with
  | zero => cases grows
  | succ budget inductionHypothesis =>
    obtain ⟨children, rfl, -⟩ := id grows
    refine Tree.everywhere_expansion.mpr ⟨root owned grows, fun child member => ?_⟩
    rcases grows.child wellFormed owned member with ⟨octets, rfl⟩ | ⟨below, ownsBelow, grown⟩
    · exact Tree.everywhere_text
    · exact inductionHypothesis ownsBelow grown

/-- What a symbol of the table grows into conforms, for it is permitted at every inner node. -/
theorem Grows.conforms (wellFormed : grammar.WellFormed) {budget : Nat} {symbol : Symbol}
    {tree : Tree} (owned : grammar.Owns symbol) (grows : grammar.Grows budget symbol tree) :
    tree.Conforms grammar :=
  grows.everywhere wellFormed (fun owned grows => grows.permits wellFormed owned) owned

end Grammar

/-- A conforming tree with a symbol at its root is an expansion of it over permitted children, which
conform. A leaf has no symbol at its root. -/
theorem Tree.Conforms.expansion {grammar : Grammar} {symbol : Symbol} {tree : Tree}
    (conforms : tree.Conforms grammar) (rooted : tree.symbol? = some symbol) :
    ∃ children, tree = .expansion symbol children ∧ grammar.Permits symbol children ∧
      ∀ child ∈ children, child.Conforms grammar := by
  cases tree with
  | text octets => cases rooted
  | expansion label children =>
    obtain rfl := Option.some.inj rooted
    obtain ⟨permits, below⟩ := everywhere_expansion.mp conforms
    exact ⟨children, rfl, permits, below⟩

/-- A conforming tree is over the grammar's own symbols. A node of another symbol would have no
production to permit its children. -/
theorem Tree.Conforms.over {grammar : Grammar} (wellFormed : grammar.WellFormed) {tree : Tree}
    (conforms : tree.Conforms grammar) : tree.Over grammar :=
  Everywhere.mono conforms fun _ _ permits =>
    wellFormed.symbol?_eq_some_iff.mpr ⟨permits.1, rfl⟩

/-- A conforming tree is read back from its sample, if an allocation can hold it. It is over the
symbols of the grammar, which is all that reading asks for. -/
theorem Tree.Conforms.readSample {grammar : Grammar} (wellFormed : grammar.WellFormed)
    {tree : Tree} (conforms : tree.Conforms grammar) (storable : tree.Storable) :
    grammar.readSample tree.toSample = .ok tree :=
  (Grammar.readSample_eq_ok_iff wellFormed).mpr ⟨rfl, conforms.over wellFormed, storable⟩

end Graft
