import Graft.Proofs.Grammar.Passes
import Graft.Proofs.Mutation.Names

/-!
# Samples between grammars

A sample refers to symbols by name, so another grammar reads it as a tree over its own
symbols, whatever their numbers are there and whatever they repeat. That is possible
exactly if the other grammar has all the names. If it has not, the sample is refused
for the first name that it lacks, in the order in which the nodes are written: a node
before its children, and children from left to right.
-/

namespace Graft

namespace Tree

mutual

/-- The names of the symbols of a tree, a node before its children. -/
def names : Tree → List String
  | .text _ => []
  | .expansion symbol children => symbol.name :: namesAll children

/-- The names of the symbols of trees in a row. -/
def namesAll : List Tree → List String
  | [] => []
  | tree :: rest => names tree ++ namesAll rest

end

/-- The other tree has the shape, the leaves and the names of the tree, and every symbol of it is
the one that the grammar has under its name and at its number. Nobody can tell the two by what
they render to, or by their samples. -/
structure Ported (grammar : Grammar) (tree other : Tree) : Prop where
  written : other.toWire = tree.toWire
  own : other.Everywhere fun symbol _ =>
    grammar.symbol? symbol.name = some symbol ∧ grammar.Owns symbol
  render : other.render = tree.render
  sample : other.toSample = tree.toSample

section Names

variable {grammar : Grammar}

/-- The names of trees in a row are those of each, in the order of the trees. -/
theorem mem_namesAll {name : String} {trees : List Tree} :
    name ∈ namesAll trees ↔ ∃ tree ∈ trees, name ∈ tree.names := by
  induction trees with
  | nil => simp [namesAll]
  | cons tree rest inductionHypothesis => simp [namesAll, inductionHypothesis]

/-- The grammar knows the symbols of a tree if it knows all the names in it, for a symbol is looked
up by its name and nothing else of it. -/
theorem namedBy_of_names {tree : Tree}
    (known : ∀ name ∈ tree.names, (grammar.symbol? name).isSome = true) :
    tree.NamedBy grammar := by
  induction tree with
  | text octets => trivial
  | expansion symbol children inductionHypothesis =>
    rw [names, List.forall_mem_cons] at known
    refine everywhere_expansion.mpr ⟨known.1, fun child member => ?_⟩
    exact inductionHypothesis child member fun name present =>
      known.2 name (mem_namesAll.mpr ⟨child, member, present⟩)

mutual

/-- Trees that are written alike render to the same octets. What is left out of the written form,
the numbers of symbols and what they repeat, is not rendered either. -/
theorem render_eq_of_toWire_eq : (tree other : Tree) → tree.toWire = other.toWire →
    tree.render = other.render
  | .text octets, .text others, written => by
    obtain rfl := Wire.text.inj written
    rfl
  | .text _, .expansion _ _, written => by cases written
  | .expansion _ _, .text _, written => by cases written
  | .expansion symbol children, .expansion other others, written => by
    obtain ⟨-, rows⟩ := Wire.expansion.inj written
    exact renderAll_eq_of_toWires_eq children others rows

/-- The same of trees in a row. The induction is on both at once: a node is rendered by way of its
row, and a row by way of its trees. -/
theorem renderAll_eq_of_toWires_eq : (trees others : List Tree) → toWires trees = toWires others →
    renderAll trees = renderAll others
  | [], [], _ => rfl
  | [], _ :: _, written => by cases written
  | _ :: _, [], written => by cases written
  | tree :: trees, other :: others, written => by
    obtain ⟨first, rest⟩ := List.cons.inj written
    rw [renderAll, renderAll, render_eq_of_toWire_eq tree other first,
      renderAll_eq_of_toWires_eq trees others rest]

end

end Names

end Tree

namespace Grammar

variable {grammar : Grammar}

/-- The grammar has no symbol of the name. -/
def lacks (grammar : Grammar) (name : String) : Bool :=
  (grammar.symbol? name).isNone

/-- A name of which the grammar lacks none before is the first that it lacks. The names come in
preorder, which is the order in which they are looked up. -/
theorem find?_lacks {before after : List String} {name : String}
    (known : ∀ earlier ∈ before, (grammar.symbol? earlier).isSome = true)
    (unknown : grammar.symbol? name = none) :
    (before ++ name :: after).find? grammar.lacks = some name := by
  refine List.find?_eq_some_iff_append.mpr ⟨?_, before, after, rfl, fun earlier member => ?_⟩
  · rw [lacks, unknown]
    rfl
  · rw [lacks, Option.not_isNone]
    exact known earlier member

mutual

/-- A tree that is written by name is refused for the first name that the grammar lacks. The name of
a node is looked up before those of its children, as preorder has it. -/
theorem resolve_of_find? : (tree : Tree) → {name : String} →
    tree.names.find? grammar.lacks = some name →
      grammar.resolve tree.toWire = .error (.unknownSymbol name)
  | .text _, _, found => by cases found
  | .expansion symbol children, name, found => by
    rw [Tree.toWire, resolve]
    cases own : grammar.symbol? symbol.name with
    | none =>
      have first : grammar.lacks symbol.name = true := by rw [lacks, own]; rfl
      rw [Tree.names, List.find?_cons_of_pos first] at found
      obtain rfl := Option.some.inj found
      rfl
    | some known =>
      have present : ¬ grammar.lacks symbol.name = true := by simp [lacks, own]
      rw [Tree.names, List.find?_cons_of_neg present] at found
      simp only [resolveAll_of_find? children found, bind, Except.bind]

/-- The same of trees in a row: those before the first name that the grammar lacks are resolved. -/
theorem resolveAll_of_find? : (trees : List Tree) → {name : String} →
    (Tree.namesAll trees).find? grammar.lacks = some name →
      grammar.resolveAll (Tree.toWires trees) = .error (.unknownSymbol name)
  | [], _, found => by cases found
  | tree :: trees, name, found => by
    rw [Tree.namesAll, List.find?_append] at found
    rw [Tree.toWires, resolveAll]
    cases here : tree.names.find? grammar.lacks with
    | some first =>
      rw [here] at found
      obtain rfl := Option.some.inj found
      simp only [resolve_of_find? tree here, bind, Except.bind]
    | none =>
      rw [here, Option.none_or] at found
      have known : tree.NamedBy grammar := Tree.namedBy_of_names fun name member => by
        have present := List.find?_eq_none.mp here name member
        simpa [lacks, Option.isSome_iff_ne_none] using present
      obtain ⟨read, resolved⟩ := resolve_of_namedBy tree known
      simp only [resolved, resolveAll_of_find? trees found, bind, Except.bind]

end

/-- A sample is refused for what its tree cannot be resolved for. All of its octets have been read
by then, so that nothing else is left to refuse it for. -/
theorem readSample_of_resolve_error {tree : Tree} (storable : tree.Storable) {error : SampleError}
    (refused : grammar.resolve tree.toWire = .error error) :
    grammar.readSample tree.toSample = .error (.error error) := by
  have nonempty : 0 < tree.toSample.length := Wire.write_nonempty tree.toWire
  have inhabited : tree.toSample.isEmpty = false := by
    simpa using List.ne_nil_of_length_pos nonempty
  have node : Sample.readNode tree.toSample = .ok (tree.toWire, ⟨[], nonempty⟩) :=
    Sample.readNode_eq_ok_iff.mpr ⟨by simp [Tree.toSample], storable⟩
  simp [readSample, inhabited, node, refused, Except.mapError]

/-- A sample is read as the same tree over the grammar's symbols if the grammar knows its names.
What else the symbols of the writer were is not in the sample. -/
theorem exists_ported (wellFormed : grammar.WellFormed) {tree : Tree} (storable : tree.Storable)
    (known : ∀ name ∈ tree.names, (grammar.symbol? name).isSome = true) :
    ∃ read, grammar.readSample tree.toSample = .ok read ∧ tree.Ported grammar read := by
  obtain ⟨read, resolved⟩ := resolve_of_namedBy tree (Tree.namedBy_of_names known)
  obtain ⟨written, owned⟩ := (resolve_eq_ok_iff wellFormed tree.toWire read).mp resolved
  refine ⟨read, readSample_eq_ok_iff_resolve.mpr ⟨_, rfl, storable, resolved⟩, written, ?_, ?_,
    congrArg Wire.write written⟩
  · exact owned.mono fun symbol _ found => ⟨found, wellFormed.owns_of_symbol? found⟩
  · exact Tree.render_eq_of_toWire_eq read tree written

/-- Samples are portable by name. The sample of a tree, over whatever symbols, is read by a built
grammar as the same tree over its own symbols if it has all the names. Otherwise it is refused for
the first name that the grammar has not. -/
theorem readSample_portable {calls : List Declaration} {grammar : Grammar}
    (built : build calls = .ok grammar) (tree : Tree) (storable : tree.Storable) :
    ((∀ name ∈ tree.names, (grammar.symbol? name).isSome = true) →
      ∃ read, grammar.readSample tree.toSample = .ok read ∧ tree.Ported grammar read) ∧
    (∀ before name after, tree.names = before ++ name :: after →
      (∀ earlier ∈ before, (grammar.symbol? earlier).isSome = true) →
        grammar.symbol? name = none →
          grammar.readSample tree.toSample = .error (.error (.unknownSymbol name))) := by
  rw [build_eq_ofDeclarations] at built
  refine ⟨exists_ported (wellFormed_of_ofDeclarations built) storable, ?_⟩
  intro before name after order known unknown
  refine readSample_of_resolve_error storable (resolve_of_find? tree ?_)
  rw [order]
  exact find?_lacks known unknown

/-- A numeral is read by a grammar that numbers its symbols the other way round, and is refused
by one that has lists but no digits. -/
theorem readSample_portable_one : ∃ reversed lists,
    build [.rule "digit" [.literal [49]], .repetition "list" "digit"] = .ok reversed ∧
    build [.rule "list" []] = .ok lists ∧ one.Over numerals ∧ one.Storable ∧
    (∃ read, reversed.readSample one.toSample = .ok read ∧ one.Ported reversed read) ∧
    lists.readSample one.toSample = .error (.error (.unknownSymbol "digit")) := by
  let reversed : Grammar := ⟨[.plain 0 "digit", .repetition 1 "list" (.plain 0 "digit")],
    [.alternatives [[.literal [49]]], .repetition 0], [("digit", 0), ("list", 1)], 100, 0.75⟩
  let lists : Grammar := ⟨[.plain 0 "list"], [.alternatives [[]]], [("list", 0)], 100, 0.75⟩
  have reversedBuilt : build [.rule "digit" [.literal [49]], .repetition "list" "digit"] =
      .ok reversed := by
    rw [build_eq_ofDeclarations]
    rfl
  have listsBuilt : build [.rule "list" []] = .ok lists := by
    rw [build_eq_ofDeclarations]
    rfl
  have storable : one.Storable := by decide
  refine ⟨reversed, lists, reversedBuilt, listsBuilt, by decide, storable, ?_, ?_⟩
  · exact (readSample_portable reversedBuilt one storable).1 (by decide)
  · exact (readSample_portable listsBuilt one storable).2 ["list"] "digit" [] rfl (by decide) rfl

end Grammar

end Graft
