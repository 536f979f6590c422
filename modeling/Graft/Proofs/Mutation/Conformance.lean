import Graft.Proofs.Grammar.Conformance
import Graft.Proofs.Mutation.Request

/-!
# Edits keep to the grammar

An edit exchanges an inner node for one of the same symbol, so the node above
cannot tell them apart. What the new node consists of has grown from symbols of
the table, or comes from conforming trees: a whole subtree, or children of
repetitions, any of which may stand beside any others. Mutated trees therefore
conform if the bound tree and the corpus do, and keep the symbol at their root.
-/

namespace Graft

variable {engine : Engine} {corpus : Corpus}

/-- What grows from a symbol of the table conforms and has that symbol at its root. The growth looks
its symbol up by number, and the table has it under that. -/
theorem Grammar.GrowsAt.conforms {grammar : Grammar} (wellFormed : grammar.WellFormed)
    {symbol : Symbol} (owned : grammar.Owns symbol) {depth : Nat} {tree : Tree}
    (grown : grammar.GrowsAt symbol depth tree) :
    tree.Conforms grammar ∧ tree.symbol? = some symbol := by
  obtain ⟨own, found, -, grows⟩ := grown
  obtain rfl : symbol = own := Option.some.inj (owned.symm.trans found)
  exact ⟨grows.conforms wellFormed owned, grows.symbol?⟩

/-- What a strategy puts in place of a conforming node conforms and has the same symbol, so that it
fits wherever the node did. -/
theorem Rewrite.conforms (wellFormed : engine.grammar.WellFormed)
    (shared : ∀ other ∈ corpus.trees, other.Conforms engine.grammar) {depth : Nat}
    {symbol : Symbol} {children : List Tree} {strategy : Strategy} {new : Tree}
    (conforms : (Tree.expansion symbol children).Conforms engine.grammar)
    (rewrite : Rewrite engine corpus depth symbol children strategy new) :
    new.Conforms engine.grammar ∧ new.symbol? = some symbol := by
  have permits := (Tree.everywhere_expansion.mp conforms).1
  have owned : engine.grammar.Owns symbol := permits.1
  obtain ⟨production, produced⟩ := permits.produced
  -- A subtree of the corpus with the number of the symbol is an expansion of the symbol.
  have given : ∀ other ∈ corpus.trees, ∀ path label grandchildren,
      other.at? path = some (.expansion label grandchildren) → label.id = symbol.id →
        label = symbol ∧ (Tree.expansion label grandchildren).Conforms engine.grammar := by
    intro other member path label grandchildren found same
    have donor := Tree.Everywhere.at? (shared other member) found
    have donorOwned : engine.grammar.Owns label := (Tree.everywhere_expansion.mp donor).1.1
    exact ⟨donorOwned.eq_of_id owned same, donor⟩
  cases rewrite with
  | replaceNode new grown => exact grown.conforms wellFormed owned
  | splice other path label grandchildren member found inside same =>
    obtain ⟨rfl, donor⟩ := given other member path label grandchildren found same
    exact ⟨donor, rfl⟩
  | repeatMutator element position count staged carried within grown =>
    have row := Grammar.conforms_iff_of_element? wellFormed owned produced carried
    have ownsElement := (wellFormed.repeats_of_element? owned produced carried).2
    refine ⟨(row _).mpr fun child member => ?_, rfl⟩
    rcases mem_of_mem_withRun member with fresh | kept
    · exact ((grown child fresh).conforms wellFormed ownsElement).symm
    · exact (row children).mp conforms child (mem_of_mem_withoutRun kept)
  | repeatSplice other path label grandchildren position count start copied repetition donor
      member found inside same within =>
    obtain ⟨element, carried⟩ := Option.isSome_iff_exists.mp repetition
    have row := Grammar.conforms_iff_of_element? wellFormed owned produced carried
    obtain ⟨rfl, donorConforms⟩ := given other member path label grandchildren found same
    refine ⟨(row _).mpr fun child member => ?_, rfl⟩
    rcases mem_of_mem_withRun member with moved | kept
    · exact (row grandchildren).mp donorConforms child
        (List.mem_of_mem_drop (List.mem_of_mem_take moved))
    · exact (row children).mp conforms child (mem_of_mem_withoutRun kept)

/-- An edit of a conforming tree conforms and keeps the symbol at the root. Around the replaced node
nothing is looked at but symbols, and these are the same. -/
theorem Edits.conforms (wellFormed : engine.grammar.WellFormed)
    (shared : ∀ other ∈ corpus.trees, other.Conforms engine.grammar) {strategy : Strategy}
    {tree result : Tree} (edits : Edits engine corpus strategy tree result)
    (conforms : tree.Conforms engine.grammar) :
    result.Conforms engine.grammar ∧ result.symbol? = tree.symbol? := by
  obtain ⟨path, symbol, children, new, found, -, rewrite, replaced⟩ := edits
  obtain ⟨newConforms, newSymbol⟩ :=
    rewrite.conforms wellFormed shared (Tree.Everywhere.at? conforms found)
  refine ⟨?_, Tree.symbol?_replaceAt? found newSymbol replaced⟩
  exact Tree.Everywhere.replaceAt? (Grammar.shallow_permits _) conforms newConforms found
    (by simp [Tree.symbol?]) newSymbol replaced

/-- Edits one after the other conform and keep the symbol at the root, whatever the corpus holds at
each moment, if that conforms. -/
theorem Reaches.conforms {corpus : Nat → Corpus} (wellFormed : engine.grammar.WellFormed)
    (shared : ∀ moment, ∀ other ∈ (corpus moment).trees, other.Conforms engine.grammar)
    {tree result : Tree} (reaches : Reaches engine corpus tree result)
    (conforms : tree.Conforms engine.grammar) :
    result.Conforms engine.grammar ∧ result.symbol? = tree.symbol? := by
  refine reaches.keeps
    (fun reached => reached.Conforms engine.grammar ∧ reached.symbol? = tree.symbol?)
    ?_ ⟨conforms, rfl⟩
  rintro moment strategy before after edits ⟨beforeConforms, beforeSymbol⟩
  obtain ⟨afterConforms, afterSymbol⟩ := edits.conforms wellFormed (shared moment) beforeConforms
  exact ⟨afterConforms, afterSymbol.trans beforeSymbol⟩

end Graft
