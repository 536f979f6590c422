import Graft.Proofs.Grammar.Conformance
import Graft.Proofs.Tree.Depth

/-!
# Derivations

A tree derives from a symbol of a grammar if it is an expansion of the symbol in
which every inner node stands over children that its own symbol yields: the parts
of one of its rows, one by one, or one or more of its element. How the tree came
about does not matter, and neither does how deep it is.

The trees that a symbol grows into within a budget of levels are exactly those of
its derivations that the budget is enough for.
-/

namespace Graft

/-- A repetition has one element at least. -/
def Inhabits (symbol : Symbol) (children : List Tree) : Prop :=
  symbol.isRepetition = true → children ≠ []

instance (symbol : Symbol) (children : List Tree) : Decidable (Inhabits symbol children) :=
  inferInstanceAs (Decidable (_ → _))

namespace Grammar

/-- The children that a symbol of the table yields: its production permits them, and of a
repetition there is one at least. -/
def Yields (grammar : Grammar) (symbol : Symbol) (children : List Tree) : Prop :=
  grammar.Permits symbol children ∧ Inhabits symbol children

/-- The tree is an expansion of the symbol, and all its inner nodes stand over children that
their symbols yield. -/
def Derives (grammar : Grammar) (symbol : Symbol) (tree : Tree) : Prop :=
  tree.symbol? = some symbol ∧ tree.Everywhere grammar.Yields

/-- The tree derives from the grammar's own symbol of the number and the name of the given one,
and as a node of the given depth it does not go below the greatest depth of the grammar. -/
def DerivesAt (grammar : Grammar) (symbol : Symbol) (depth : Nat) (tree : Tree) : Prop :=
  ∃ own, grammar.Owns own ∧ own.id = symbol.id ∧ own.name = symbol.name ∧
    grammar.Derives own tree ∧ tree.DepthWithin depth grammar.maxDepth

section Decisions

variable (grammar : Grammar)

instance (symbol : Symbol) (tree : Tree) : Decidable (Rooted symbol tree) :=
  inferInstanceAs (Decidable (_ = _))

instance (stands : Symbol → Tree → Prop) [∀ symbol tree, Decidable (stands symbol tree)]
    (part : Part) (tree : Tree) : Decidable (grammar.Fits stands part tree) :=
  match part with
  | .literal octets => inferInstanceAs (Decidable (tree = .text octets))
  | .symbol id =>
    inferInstanceAs (Decidable (∃ symbol ∈ grammar.symbols[id]?, stands symbol tree))

instance (symbol : Symbol) (children : List Tree) :
    Decidable (grammar.Permits symbol children) :=
  match produced : grammar.productions[symbol.id]? with
  | none => isFalse fun permits => by simp only [Permits, produced, and_false] at permits
  | some (.alternatives rows) =>
    decidable_of_iff
      (grammar.Owns symbol ∧ ∃ row ∈ rows, List.Forall₂ (grammar.Fits Rooted) row children)
      (by simp only [Permits, produced])
  | some (.repetition element) =>
    decidable_of_iff
      (grammar.Owns symbol ∧ ∀ child ∈ children, grammar.Fits Rooted (.symbol element) child)
      (by simp only [Permits, produced])

instance (tree : Tree) : Decidable (tree.Conforms grammar) :=
  inferInstanceAs (Decidable (tree.Everywhere _))

instance (symbol : Symbol) (children : List Tree) : Decidable (grammar.Yields symbol children) :=
  inferInstanceAs (Decidable (_ ∧ _))

instance (symbol : Symbol) (tree : Tree) : Decidable (grammar.Derives symbol tree) :=
  inferInstanceAs (Decidable (_ ∧ _))

end Decisions

variable {grammar : Grammar}

/-- What derives from a symbol is an inner node, and the symbol is one of the table. The symbol at
the root is the very symbol and not only one of its number. -/
theorem Derives.expansion {symbol : Symbol} {tree : Tree} (derives : grammar.Derives symbol tree) :
    ∃ children, tree = .expansion symbol children ∧ grammar.Yields symbol children ∧
      ∀ child ∈ children, child.Everywhere grammar.Yields := by
  obtain ⟨rooted, everywhere⟩ := derives
  cases tree with
  | text octets => cases rooted
  | expansion label children =>
    obtain rfl : label = symbol := Option.some.inj rooted
    obtain ⟨yields, below⟩ := Tree.everywhere_expansion.mp everywhere
    exact ⟨children, rfl, yields, below⟩

/-- Only a symbol of the table has derivations, as any other has no production to yield its
children. -/
theorem Derives.owns {symbol : Symbol} {tree : Tree} (derives : grammar.Derives symbol tree) :
    grammar.Owns symbol := by
  obtain ⟨children, -, ⟨permits, -⟩, -⟩ := derives.expansion
  exact permits.1

/-- Every inner node of a derivation is a derivation from its own symbol. The condition is on each
node and its children, so it does not matter where one starts. -/
theorem Derives.at? {symbol label : Symbol} {tree : Tree} {path : Path} {children : List Tree}
    (derives : grammar.Derives symbol tree)
    (found : tree.at? path = some (.expansion label children)) :
    grammar.Derives label (.expansion label children) :=
  ⟨rfl, Tree.Everywhere.at? derives.2 found⟩

/-- A derivation of a symbol of the table at a depth is one of the very symbol. In general it is one
of the table's symbol of the same number and name. -/
theorem DerivesAt.derives {symbol : Symbol} {depth : Nat} {tree : Tree}
    (derives : grammar.DerivesAt symbol depth tree) (owned : grammar.Owns symbol) :
    grammar.Derives symbol tree := by
  obtain ⟨own, ownOwned, numbered, -, ownDerives, -⟩ := derives
  rwa [← ownOwned.eq_of_id owned numbered]

/-- The inner nodes of a derivation at a depth are derivations at the depths that they have, which
is further down by the length of the path to them. -/
theorem DerivesAt.at? {symbol label : Symbol} {depth : Nat} {tree : Tree} {path : Path}
    {children : List Tree} (derives : grammar.DerivesAt symbol depth tree)
    (found : tree.at? path = some (.expansion label children)) :
    grammar.DerivesAt label (depth + path.length) (.expansion label children) := by
  obtain ⟨own, -, -, -, ownDerives, within⟩ := derives
  have node := ownDerives.at? found
  exact ⟨label, node.owns, rfl, rfl, node, within.at? found⟩

/-! ## What grows derives -/

/-- A repetition of the table grows with one element at least, because whether to go on is drawn
after an element. -/
theorem Grows.inhabits (wellFormed : grammar.WellFormed) {budget : Nat} {symbol : Symbol}
    {children : List Tree} (owned : grammar.Owns symbol)
    (grows : grammar.Grows budget symbol (.expansion symbol children)) :
    Inhabits symbol children := by
  intro repetition
  cases grows.over wellFormed owned with
  | row _ _ rows row _ produced plain present fits =>
    rw [Symbol.isRepetition, plain] at repetition
    cases repetition
  | run _ _ element production _ produced carried ownsElement nonempty grown => exact nonempty

/-- What grows with a budget of levels is within the limit where the budget ends. Each level of the
tree has spent one of the budget. -/
theorem Grows.depthWithin (wellFormed : grammar.WellFormed) {budget start limit : Nat}
    {symbol : Symbol} {tree : Tree} (owned : grammar.Owns symbol)
    (grows : grammar.Grows budget symbol tree) (ends : start + budget ≤ limit + 1) :
    tree.DepthWithin start limit := by
  induction budget generalizing symbol tree start with
  | zero => cases grows
  | succ budget inductionHypothesis =>
    obtain ⟨children, rfl, -⟩ := id grows
    refine Tree.depthWithin_expansion.mpr ⟨by omega, fun child member => ?_⟩
    rcases grows.child wellFormed owned member with ⟨octets, rfl⟩ | ⟨below, ownsBelow, grown⟩
    · exact Tree.depthWithin_text _ _ octets
    · exact inductionHypothesis ownsBelow grown (by omega)

/-- What a symbol of the table grows into derives from it: its children are yielded by its
production, and so it is at every inner node below. -/
theorem Grows.derives (wellFormed : grammar.WellFormed) {budget : Nat} {symbol : Symbol}
    {tree : Tree} (owned : grammar.Owns symbol) (grows : grammar.Grows budget symbol tree) :
    grammar.Derives symbol tree :=
  ⟨grows.symbol?, grows.everywhere wellFormed
    (fun owned grows => ⟨grows.permits wellFormed owned, grows.inhabits wellFormed owned⟩) owned⟩

/-! ## What derives grows -/

/-- A derivation within a limit grows with the budget that ends there. The induction is on the
budget, which is spent level by level: a derivation within the limit has no level left to
derive where the budget is spent. -/
theorem Derives.grows (wellFormed : grammar.WellFormed) {budget start limit : Nat}
    {symbol : Symbol} {tree : Tree} (derives : grammar.Derives symbol tree)
    (within : tree.DepthWithin start limit) (ends : limit + 1 ≤ start + budget) :
    grammar.Grows budget symbol tree := by
  induction budget generalizing symbol tree start with
  | zero =>
    obtain ⟨children, rfl, -⟩ := derives.expansion
    have reached := (Tree.depthWithin_expansion.mp within).1
    omega
  | succ budget inductionHypothesis =>
    obtain ⟨children, rfl, ⟨⟨owned, permitted⟩, inhabits⟩, below⟩ := derives.expansion
    have deeper := (Tree.depthWithin_expansion.mp within).2
    have childGrows : ∀ child ∈ children, ∀ label, child.symbol? = some label →
        grammar.Grows budget label child := fun child member label rooted =>
      inductionHypothesis ⟨rooted, below child member⟩ (deeper child member) (by omega)
    refine ⟨children, rfl, ?_⟩
    cases produced : grammar.productions[symbol.id]? with
    | none => simp only [produced] at permitted
    | some production =>
      cases production with
      | alternatives rows =>
        simp only [produced] at permitted ⊢
        obtain ⟨row, member, fits⟩ := permitted
        refine ⟨row, member, forall₂_imp_of_mem fits fun part child present fitted => ?_⟩
        exact Fits.mono fitted fun _ label _ rooted => childGrows child present label rooted
      | repetition element =>
        simp only [produced] at permitted ⊢
        obtain ⟨repeated, carried, ownsRepeated, rfl⟩ :=
          wellFormed.repeats symbol element owned produced
        have repetition : symbol.isRepetition = true := by rw [Symbol.isRepetition, carried]; rfl
        refine ⟨inhabits repetition, repeated, carried, fun child member => ?_⟩
        -- The element that the table names is the one that the symbol carries.
        obtain ⟨label, found, rooted⟩ := permitted child member
        obtain rfl : repeated = label := Option.some.inj (ownsRepeated.symm.trans found)
        exact childGrows child member repeated rooted

/-- The trees that grow at a depth are the derivations at that depth. What growth can come to is
thus described without growing anything. -/
theorem growsAt_iff_derivesAt (wellFormed : grammar.WellFormed) {symbol : Symbol} {depth : Nat}
    {tree : Tree} : grammar.GrowsAt symbol depth tree ↔ grammar.DerivesAt symbol depth tree := by
  constructor
  · rintro ⟨own, found, named, grows⟩
    have owned : grammar.Owns own := wellFormed.numbered own (List.mem_of_getElem? found)
    refine ⟨own, owned, wellFormed.id_of_getElem? found, named, grows.derives wellFormed owned, ?_⟩
    by_cases reached : depth ≤ grammar.maxDepth
    · exact grows.depthWithin wellFormed owned (by omega)
    · -- Below the greatest depth there is no budget, and nothing grows.
      rw [Nat.sub_eq_zero_of_le (by omega)] at grows
      cases grows
  · rintro ⟨own, owned, numbered, named, derives, within⟩
    refine ⟨own, numbered ▸ owned, named, derives.grows wellFormed within ?_⟩
    omega

/-- What grows at a depth is within the greatest depth of the grammar, also where it is put below a
node of a tree. -/
theorem GrowsAt.depthWithin (wellFormed : grammar.WellFormed) {symbol : Symbol} {depth : Nat}
    {tree : Tree} (grown : grammar.GrowsAt symbol depth tree) :
    tree.DepthWithin depth grammar.maxDepth := by
  obtain ⟨own, -, -, -, -, within⟩ := (growsAt_iff_derivesAt wellFormed).mp grown
  exact within

end Grammar

end Graft
