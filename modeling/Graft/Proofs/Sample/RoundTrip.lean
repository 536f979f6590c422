import Graft.Proofs.Grammar.Table
import Graft.Proofs.Sample.Layout
import Graft.Proofs.Tree.Everywhere

/-!
# Samples and the trees they stand for

A sample is read in two steps, its layout first and its names second. A name is
resolved to the symbol that bears it, so the trees that are read are exactly the
trees over the grammar's own symbols, and writing such a tree gives back the
sample. A tree over foreign symbols is also read back as long as the grammar
has a symbol of each name at the same number; what comes back is then the same
tree up to what its symbols carry besides their numbers.
-/

namespace Graft

namespace Tree

/-- Every length in the sample of the tree is one that an allocation can hold. -/
def Storable (tree : Tree) : Prop := tree.toWire.Storable

instance (tree : Tree) : Decidable tree.Storable :=
  inferInstanceAs (Decidable tree.toWire.Storable)

/-- Every symbol of the tree is the one that the grammar has under its name. -/
def Over (grammar : Grammar) (tree : Tree) : Prop :=
  tree.Everywhere fun symbol _ => grammar.symbol? symbol.name = some symbol

instance (grammar : Grammar) (tree : Tree) : Decidable (tree.Over grammar) :=
  inferInstanceAs (Decidable (tree.Everywhere _))

/-- Under the name of every symbol of the tree the grammar has a symbol of its number. -/
def KnownTo (grammar : Grammar) (tree : Tree) : Prop :=
  tree.Everywhere fun symbol _ =>
    (grammar.symbol? symbol.name).map Symbol.id = some symbol.id

instance (grammar : Grammar) (tree : Tree) : Decidable (tree.KnownTo grammar) :=
  inferInstanceAs (Decidable (tree.Everywhere _))

section Sameness

variable {grammar : Grammar}

mutual

/-- Two trees over one grammar's symbols that are the same are equal: the number of a
symbol decides what it carries. -/
theorem Over.eq_of_same (wellFormed : grammar.WellFormed) : (left right : Tree) →
    left.Over grammar → right.Over grammar → left.same right = true → left = right
  | .text _, .text _, _, _, same => by simpa [Tree.same] using same
  | .text _, .expansion _ _, _, _, same => by simp [Tree.same] at same
  | .expansion _ _, .text _, _, _, same => by simp [Tree.same] at same
  | .expansion symbol children, .expansion other others, ⟨named, below⟩, ⟨otherNamed, otherBelow⟩,
      same => by
    simp only [Tree.same, Symbol.same, Bool.and_eq_true, beq_iff_eq] at same
    have symbols : symbol = other :=
      (wellFormed.owns_of_symbol? named).eq_of_id (wellFormed.owns_of_symbol? otherNamed) same.1
    have rows : children = others :=
      Over.eq_of_sameAll wellFormed children others below otherBelow same.2
    rw [symbols, rows]

/-- Two rows of such trees are equal if they are the same one by one, which includes that neither is
longer. -/
theorem Over.eq_of_sameAll (wellFormed : grammar.WellFormed) : (lefts rights : List Tree) →
    EverywhereAll (fun symbol _ => grammar.symbol? symbol.name = some symbol) lefts →
      EverywhereAll (fun symbol _ => grammar.symbol? symbol.name = some symbol) rights →
        sameAll lefts rights = true → lefts = rights
  | [], [], _, _, _ => rfl
  | [], _ :: _, _, _, same => by simp [sameAll] at same
  | _ :: _, [], _, _, same => by simp [sameAll] at same
  | left :: lefts, right :: rights, ⟨leftOver, leftsOver⟩, ⟨rightOver, rightsOver⟩, same => by
    simp only [sameAll, Bool.and_eq_true] at same
    rw [Over.eq_of_same wellFormed left right leftOver rightOver same.1,
      Over.eq_of_sameAll wellFormed lefts rights leftsOver rightsOver same.2]

end

end Sameness

end Tree

namespace Grammar

variable {grammar : Grammar}

mutual

/-- A written tree is resolved to the trees over the grammar's symbols that are written
like it, for a name finds a symbol that bears it. -/
theorem resolve_eq_ok_iff (wellFormed : grammar.WellFormed) : (wire : Wire) → (tree : Tree) →
    (grammar.resolve wire = .ok tree ↔ tree.toWire = wire ∧ tree.Over grammar)
  | .text octets, tree => by
    cases tree with
    | text others => simp [resolve, Tree.toWire, Tree.Over, eq_comm]
    | expansion symbol children => simp [resolve, Tree.toWire]
  | .expansion name wires, tree => by
    constructor
    · intro resolved
      simp only [resolve, bind, Except.bind, pure, Except.pure] at resolved
      split at resolved
      · cases resolved
      · next symbol found =>
        split at resolved
        · cases resolved
        · next children below =>
          cases resolved
          obtain ⟨rfl, childrenOver⟩ := (resolveAll_eq_ok_iff wellFormed wires children).mp below
          obtain rfl := wellFormed.name_of_symbol? found
          exact ⟨rfl, found, childrenOver⟩
    · rintro ⟨written, owned⟩
      cases tree with
      | text others => simp [Tree.toWire] at written
      | expansion symbol children =>
        obtain ⟨found, childrenOver⟩ := owned
        simp only [Tree.toWire, Wire.expansion.injEq] at written
        obtain ⟨rfl, written⟩ := written
        have below : grammar.resolveAll wires = .ok children :=
          (resolveAll_eq_ok_iff wellFormed wires children).mpr ⟨written, childrenOver⟩
        simp only [resolve, found, below, bind, Except.bind, pure, Except.pure]

/-- The same of written trees in a row. The two inductions are one, from a node to its row and from
the row to its trees. -/
theorem resolveAll_eq_ok_iff (wellFormed : grammar.WellFormed) :
    (wires : List Wire) → (trees : List Tree) →
    (grammar.resolveAll wires = .ok trees ↔ Tree.toWires trees = wires ∧
      Tree.EverywhereAll (fun symbol _ => grammar.symbol? symbol.name = some symbol) trees)
  | [], trees => by
    cases trees with
    | nil => simp [resolveAll, Tree.toWires, Tree.EverywhereAll]
    | cons tree rest => simp [resolveAll, Tree.toWires]
  | wire :: wires, trees => by
    constructor
    · intro resolved
      simp only [resolveAll, bind, Except.bind, pure, Except.pure] at resolved
      split at resolved
      · cases resolved
      · next tree first =>
        split at resolved
        · cases resolved
        · next rest others =>
          cases resolved
          obtain ⟨rfl, treeOver⟩ := (resolve_eq_ok_iff wellFormed wire tree).mp first
          obtain ⟨rfl, restOver⟩ := (resolveAll_eq_ok_iff wellFormed wires rest).mp others
          exact ⟨rfl, treeOver, restOver⟩
    · rintro ⟨written, owned⟩
      cases trees with
      | nil => simp [Tree.toWires] at written
      | cons tree rest =>
        obtain ⟨treeOver, restOver⟩ := owned
        simp only [Tree.toWires, List.cons.injEq] at written
        have first : grammar.resolve wire = .ok tree :=
          (resolve_eq_ok_iff wellFormed wire tree).mpr ⟨written.1, treeOver⟩
        have others : grammar.resolveAll wires = .ok rest :=
          (resolveAll_eq_ok_iff wellFormed wires rest).mpr ⟨written.2, restOver⟩
        simp only [resolveAll, first, others, bind, Except.bind, pure, Except.pure]

end

mutual

/-- The names of a tree whose symbols the grammar knows are resolved, to the same tree. It need not
be equal: a symbol may have carried something else under its number and name. -/
theorem resolve_of_knownTo : (tree : Tree) → tree.KnownTo grammar →
    ∃ read, grammar.resolve tree.toWire = .ok read ∧ read.same tree = true
  | .text octets, _ => ⟨.text octets, rfl, by simp [Tree.same]⟩
  | .expansion symbol children, ⟨known, below⟩ => by
    obtain ⟨own, found, numbered⟩ := Option.map_eq_some_iff.mp known
    obtain ⟨reads, resolved, same⟩ := resolveAll_of_knownTo children below
    refine ⟨.expansion own reads, ?_, ?_⟩
    · simp only [Tree.toWire, resolve, found, resolved, bind, Except.bind, pure, Except.pure]
    · simp [Tree.same, Symbol.same, numbered, same]

/-- The same of trees in a row, each of which is resolved by itself. -/
theorem resolveAll_of_knownTo : (trees : List Tree) →
    Tree.EverywhereAll (fun symbol _ =>
      (grammar.symbol? symbol.name).map Symbol.id = some symbol.id) trees →
    ∃ reads, grammar.resolveAll (Tree.toWires trees) = .ok reads ∧
      Tree.sameAll reads trees = true
  | [], _ => ⟨[], rfl, rfl⟩
  | tree :: trees, ⟨known, others⟩ => by
    obtain ⟨read, first, same⟩ := resolve_of_knownTo tree known
    obtain ⟨reads, rest, sameRest⟩ := resolveAll_of_knownTo trees others
    refine ⟨read :: reads, ?_, ?_⟩
    · simp only [Tree.toWires, resolveAll, first, rest, bind, Except.bind, pure, Except.pure]
    · simp [Tree.sameAll, same, sameRest]

end

/-- A sample is read as a tree exactly if it spells out a written tree that an allocation can
hold, and the names in it are resolved to the tree. -/
theorem readSample_eq_ok_iff_resolve {sample : Bytes} {tree : Tree} :
    grammar.readSample sample = .ok tree ↔
      ∃ wire : Wire, wire.write = sample ∧ wire.Storable ∧ grammar.resolve wire = .ok tree := by
  constructor
  · intro read
    simp only [readSample] at read
    split at read
    · cases read
    · split at read
      · cases read
      · next wire rest node =>
        split at read
        · next ended =>
          obtain ⟨written, storable⟩ := Sample.readNode_eq_ok_iff.mp node
          have nothing : rest.val = [] := by simpa using ended
          refine ⟨wire, by rw [written, nothing, List.append_nil], storable, ?_⟩
          cases named : grammar.resolve wire with
          | error refusal => simp [named, Except.mapError] at read
          | ok other => simpa [named, Except.mapError] using read
        · cases read
  · rintro ⟨wire, rfl, storable, resolved⟩
    have nonempty : 0 < wire.write.length := Wire.write_nonempty wire
    have node : Sample.readNode wire.write = .ok (wire, ⟨[], nonempty⟩) :=
      Sample.readNode_eq_ok_iff.mpr ⟨(List.append_nil _).symm, storable⟩
    have inhabited : wire.write.isEmpty = false := by
      simpa using List.ne_nil_of_length_pos nonempty
    simp [readSample, inhabited, node, resolved, Except.mapError]

/-- A sample is read as a tree exactly if it is that tree's sample, the tree is over the
grammar's symbols, and an allocation can hold it. -/
theorem readSample_eq_ok_iff (wellFormed : grammar.WellFormed) {sample : Bytes} {tree : Tree} :
    grammar.readSample sample = .ok tree ↔
      tree.toSample = sample ∧ tree.Over grammar ∧ tree.Storable := by
  rw [readSample_eq_ok_iff_resolve]
  constructor
  · rintro ⟨wire, rfl, storable, resolved⟩
    obtain ⟨rfl, owned⟩ := (resolve_eq_ok_iff wellFormed wire tree).mp resolved
    exact ⟨rfl, owned, storable⟩
  · rintro ⟨rfl, owned, storable⟩
    exact ⟨tree.toWire, rfl, storable, (resolve_eq_ok_iff wellFormed _ tree).mpr ⟨rfl, owned⟩⟩

/-- What is written is read back. The sample of a tree that is known to the grammar is
read to its last octet, and the tree that is read is the one that was written. -/
theorem readSample_toSample (grammar : Grammar) (tree : Tree) (known : tree.KnownTo grammar)
    (storable : tree.Storable) :
    ∃ read, grammar.readSample tree.toSample = .ok read ∧ read.same tree = true ∧
      ∃ rest, Sample.readNode tree.toSample = .ok (tree.toWire, rest) ∧ rest.val = [] := by
  obtain ⟨read, resolved, same⟩ := resolve_of_knownTo tree known
  have node : Sample.readNode tree.toSample =
      .ok (tree.toWire, ⟨[], Wire.write_nonempty tree.toWire⟩) :=
    Sample.readNode_eq_ok_iff.mpr ⟨by simp [Tree.toSample], storable⟩
  refine ⟨read, readSample_eq_ok_iff_resolve.mpr ⟨tree.toWire, rfl, storable, resolved⟩, same, ?_⟩
  exact ⟨_, node, rfl⟩

/-- A digit that stands for a repetition, over octets that are no digit. -/
def foreignDigit : Tree := .expansion (.repetition 1 "digit" (.plain 7 "bit")) [.text [255]]

/-- A tree over foreign symbols that fits no production is read back. -/
theorem readSample_toSample_foreignDigit :
    foreignDigit.KnownTo numerals ∧ foreignDigit.Storable ∧
      ∃ read, numerals.readSample foreignDigit.toSample = .ok read ∧
        read.same foreignDigit = true ∧
        ∃ rest, Sample.readNode foreignDigit.toSample = .ok (foreignDigit.toWire, rest) ∧
          rest.val = [] :=
  ⟨by decide, by decide, readSample_toSample numerals foreignDigit (by decide) (by decide)⟩

/-- The form of samples is canonical. A sample that is read is the sample of the tree
that it is read as, whose symbols are the grammar's own; samples that are read as the
same tree are equal; and those that are read are the samples of the trees over the
grammar's symbols. -/
theorem readSample_canonical {declarations : List Declaration} {grammar : Grammar}
    (built : ofDeclarations declarations = .ok grammar) :
    (∀ sample tree, grammar.readSample sample = .ok tree →
      tree.toSample = sample ∧ tree.Over grammar) ∧
    (∀ left right leftTree rightTree, grammar.readSample left = .ok leftTree →
      grammar.readSample right = .ok rightTree → leftTree.same rightTree = true → left = right) ∧
    (∀ sample, (∃ tree, grammar.readSample sample = .ok tree) ↔
      ∃ tree : Tree, tree.Over grammar ∧ tree.Storable ∧ tree.toSample = sample) := by
  have wellFormed := wellFormed_of_ofDeclarations built
  refine ⟨?canonical, ?injective, ?image⟩
  case canonical =>
    intro sample tree read
    obtain ⟨written, owned, -⟩ := (readSample_eq_ok_iff wellFormed).mp read
    exact ⟨written, owned⟩
  case injective =>
    intro left right leftTree rightTree leftRead rightRead same
    obtain ⟨leftWritten, leftOver, -⟩ := (readSample_eq_ok_iff wellFormed).mp leftRead
    obtain ⟨rightWritten, rightOver, -⟩ := (readSample_eq_ok_iff wellFormed).mp rightRead
    have trees : leftTree = rightTree :=
      Tree.Over.eq_of_same wellFormed leftTree rightTree leftOver rightOver same
    rw [← leftWritten, trees, rightWritten]
  case image =>
    intro sample
    constructor
    · rintro ⟨tree, read⟩
      obtain ⟨written, owned, storable⟩ := (readSample_eq_ok_iff wellFormed).mp read
      exact ⟨tree, owned, storable, written⟩
    · rintro ⟨tree, owned, storable, written⟩
      exact ⟨tree, (readSample_eq_ok_iff wellFormed).mpr ⟨written, owned, storable⟩⟩

/-- The binary numeral of one. -/
def one : Tree :=
  .expansion (.repetition 0 "list" (.plain 1 "digit")) [.expansion (.plain 1 "digit") [.text [49]]]

/-- The sample of a binary numeral is read, and only as a tree that it is the sample of. -/
theorem readSample_canonical_one :
    (∃ tree, numerals.readSample one.toSample = .ok tree) ∧
      ∀ tree, numerals.readSample one.toSample = .ok tree →
        tree.toSample = one.toSample ∧ tree.Over numerals := by
  have canonical := readSample_canonical ofDeclarations_numerals
  refine ⟨(canonical.2.2 one.toSample).mpr ⟨one, ?_, ?_, rfl⟩, canonical.1 one.toSample⟩
  · decide
  · decide

end Grammar

end Graft
