import Graft.Proofs.Mutation.Conformance

/-!
# Names that a grammar knows

A sample is refused for a name that its grammar does not know, whatever else may be
odd about the tree that it was written from. What a request answers with bears only
names that the grammar knows if the bound tree and the corpus bear only such names:
what grows bears the grammar's own, and an edit takes all others from the two.
-/

namespace Graft

namespace Tree

/-- Every symbol of the tree has a name that the grammar knows. -/
def NamedBy (grammar : Grammar) (tree : Tree) : Prop :=
  tree.Everywhere fun symbol _ => (grammar.symbol? symbol.name).isSome = true

instance (grammar : Grammar) (tree : Tree) : Decidable (tree.NamedBy grammar) :=
  inferInstanceAs (Decidable (tree.Everywhere _))

variable {grammar : Grammar}

/-- A tree over the grammar's symbols bears their names, as every symbol of the table is found by
its own. -/
theorem Over.namedBy {tree : Tree} (owned : tree.Over grammar) : tree.NamedBy grammar :=
  Everywhere.mono owned fun _ _ found => Option.isSome_iff_exists.mpr ⟨_, found⟩

/-- The names of a tree are those that are left and those of the subtree that is exchanged. The
induction is on the path, along which the nodes keep their symbols. -/
theorem NamedBy.replaceAt? {tree new result : Tree} {path : Path} (named : tree.NamedBy grammar)
    (newNamed : new.NamedBy grammar) (replaced : tree.replaceAt? path new = some result) :
    result.NamedBy grammar := by
  induction path generalizing tree result with
  | nil =>
    obtain rfl : new = result := by simpa [Tree.replaceAt?] using replaced
    exact newNamed
  | cons position path inductionHypothesis =>
    cases tree with
    | text octets => simp [Tree.replaceAt?] at replaced
    | expansion symbol children =>
      obtain ⟨here, below⟩ := everywhere_expansion.mp named
      simp only [Tree.replaceAt?] at replaced
      split at replaced
      · cases replaced
      · next child placed =>
        obtain ⟨renewed, childReplaced, rfl⟩ := Option.map_eq_some_iff.mp replaced
        refine everywhere_expansion.mpr ⟨here, fun other member => ?_⟩
        rcases List.mem_or_eq_of_mem_set member with present | rfl
        · exact below other present
        · exact inductionHypothesis (below child (List.mem_of_getElem? placed)) childReplaced

end Tree

namespace Grammar

variable {grammar : Grammar}

mutual

/-- Names that the grammar knows are resolved. Numbers are not looked at, and the tree that is read
may differ in them. -/
theorem resolve_of_namedBy : (tree : Tree) → tree.NamedBy grammar →
    ∃ read, grammar.resolve tree.toWire = .ok read
  | .text octets, _ => ⟨.text octets, rfl⟩
  | .expansion symbol children, ⟨known, below⟩ => by
    obtain ⟨own, found⟩ := Option.isSome_iff_exists.mp known
    obtain ⟨reads, resolved⟩ := resolveAll_of_namedBy children below
    refine ⟨.expansion own reads, ?_⟩
    simp only [Tree.toWire, resolve, found, resolved, bind, Except.bind, pure, Except.pure]

/-- The same of trees in a row, which the nodes of a tree come back to. -/
theorem resolveAll_of_namedBy : (trees : List Tree) →
    Tree.EverywhereAll (fun symbol _ => (grammar.symbol? symbol.name).isSome = true) trees →
    ∃ reads, grammar.resolveAll (Tree.toWires trees) = .ok reads
  | [], _ => ⟨[], rfl⟩
  | tree :: trees, ⟨known, others⟩ => by
    obtain ⟨read, first⟩ := resolve_of_namedBy tree known
    obtain ⟨reads, rest⟩ := resolveAll_of_namedBy trees others
    refine ⟨read :: reads, ?_⟩
    simp only [Tree.toWires, resolveAll, first, rest, bind, Except.bind, pure, Except.pure]

end

/-- The sample of a tree is read if the grammar knows its names and an allocation can hold it.
Whether the tree conforms is not asked. -/
theorem readSample_of_namedBy {tree : Tree} (named : tree.NamedBy grammar)
    (storable : tree.Storable) : ∃ read, grammar.readSample tree.toSample = .ok read := by
  obtain ⟨read, resolved⟩ := resolve_of_namedBy tree named
  exact ⟨read, readSample_eq_ok_iff_resolve.mpr ⟨_, rfl, storable, resolved⟩⟩

/-- What grows bears names of the grammar, since it stands over symbols of the table. -/
theorem GrowsAt.namedBy (wellFormed : grammar.WellFormed) {symbol : Symbol} {depth : Nat}
    {tree : Tree} (grown : grammar.GrowsAt symbol depth tree) : tree.NamedBy grammar := by
  obtain ⟨own, found, -, grows⟩ := grown
  have owned := wellFormed.numbered own (List.mem_of_getElem? found)
  exact ((grows.conforms wellFormed owned).over wellFormed).namedBy

end Grammar

variable {engine : Engine} {corpus : Corpus}

/-- An edit bears no names but those of the grammar, the tree and the corpus. What a strategy puts
in place of a node comes from one of the three. -/
theorem Edits.namedBy (wellFormed : engine.grammar.WellFormed)
    (shared : ∀ other ∈ corpus.trees, other.NamedBy engine.grammar) {strategy : Strategy}
    {tree result : Tree} (edits : Edits engine corpus strategy tree result)
    (named : tree.NamedBy engine.grammar) : result.NamedBy engine.grammar := by
  obtain ⟨path, symbol, children, new, found, -, rewrite, replaced⟩ := edits
  refine named.replaceAt? ?_ replaced
  obtain ⟨here, below⟩ := Tree.everywhere_expansion.mp (Tree.Everywhere.at? named found)
  cases rewrite with
  | replaceNode new grown => exact grown.namedBy wellFormed
  | splice other path label grandchildren member found inside same =>
    exact Tree.Everywhere.at? (shared other member) found
  | repeatMutator element position count staged carried within grown =>
    refine Tree.everywhere_expansion.mpr ⟨here, fun child member => ?_⟩
    rcases mem_of_mem_withRun member with fresh | kept
    · exact (grown child fresh).namedBy wellFormed
    · exact below child (mem_of_mem_withoutRun kept)
  | repeatSplice other path label grandchildren position count start copied repetition donor
      member found inside same within =>
    have donorNamed := (Tree.everywhere_expansion.mp
      (Tree.Everywhere.at? (shared other member) found)).2
    refine Tree.everywhere_expansion.mpr ⟨here, fun child member => ?_⟩
    rcases mem_of_mem_withRun member with moved | kept
    · exact donorNamed child (List.mem_of_mem_drop (List.mem_of_mem_take moved))
    · exact below child (mem_of_mem_withoutRun kept)

/-- A request is answered with names of the grammar, the bound tree and the corpora, by a new growth
or by edits. Its sample can thus be read back. -/
theorem Mutator.Served.namedBy {mutator : Mutator} {corpus : Nat → Corpus} {bound : Tree}
    {answer : Mutator × Bytes} (served : mutator.Served corpus bound answer)
    (wellFormed : mutator.engine.grammar.WellFormed)
    (shared : ∀ moment, ∀ other ∈ (corpus moment).trees, other.NamedBy mutator.engine.grammar)
    (named : bound.NamedBy mutator.engine.grammar) :
    ∃ tree : Tree, answer.2 = tree.toSample ∧ tree.NamedBy mutator.engine.grammar := by
  cases served with
  | regenerated tree grown => exact ⟨tree, rfl, grown.namedBy wellFormed⟩
  | edited trace sites donors result follows granted exhausted =>
    refine ⟨result, rfl, follows.reaches.keeps _ ?_ named⟩
    exact fun moment strategy before after edits => edits.namedBy wellFormed (shared moment)

end Graft
