import Graft.Campaign.Statements
import Graft.Proofs.Grammar.Wording
import Graft.Proofs.Mutation.Conformance
import Graft.Proofs.Mutation.Generation

/-!
# Programs of the statement language

The declarations of the language make a table of ten symbols. Whatever conforms to
it is a program: one statement behind the other, each ended by a semicolon and a
new line that occur nowhere else, with its brackets nested. A program may have no
statement once all of them have been deleted, but none grows without.
-/

namespace Graft.Campaign.Statements

open Graft.Random

/-- A literal part of a row of the table. -/
def spelled (text : String) : Part := .literal (Bytes.ofString text)

/-- The symbol that programs derive from. -/
def root : Symbol := .plain 0 "root"

/-- The symbol of a single statement. -/
def statement : Symbol := .plain 2 "statement"

/-- The symbol of all statements of a program. -/
def statements : Symbol := .repetition 1 "statements" statement

/-- The table that the declarations make. -/
def table : Grammar where
  symbols := [root, statements, statement, .plain 3 "expr", .plain 4 "term", .plain 5 "factor",
    .plain 6 "addop", .repetition 7 "number" (.plain 8 "digit"), .plain 8 "digit",
    .plain 9 "ident"]
  productions := [
    .alternatives [[.symbol 1]],
    .repetition 2,
    .alternatives [
      [.symbol 9, spelled " = ", .symbol 3, spelled ";\n"],
      [spelled "print(", .symbol 3, spelled ");\n"]],
    .alternatives [[.symbol 4], [.symbol 4, .symbol 6, .symbol 3]],
    .alternatives [[.symbol 5], [.symbol 5, spelled " * ", .symbol 5]],
    .alternatives [
      [.symbol 7],
      [.symbol 9],
      [spelled "-", .symbol 7],
      [.symbol 9, spelled "[", .symbol 7, spelled "]"],
      [spelled "(", .symbol 3, spelled ")"]],
    .alternatives [[spelled " + "], [spelled " - "]],
    .repetition 8,
    .alternatives (["0", "1", "2", "3", "4", "5", "6", "7", "8", "9"].map fun digit =>
      [spelled digit]),
    .alternatives (["x", "y", "z", "acc"].map fun name => [spelled name])]
  byName := [("root", 0), ("statements", 1), ("statement", 2), ("expr", 3), ("term", 4),
    ("factor", 5), ("addop", 6), ("number", 7), ("digit", 8), ("ident", 9)]
  maxDepth := 100
  repeatProbability := 0.75

/-- The grammar of the language is not refused. What its declarations make is the table that is
written out above. -/
theorem grammar_eq : grammar = .ok table := rfl

/-- The table is well formed, like every table that is not refused. -/
theorem wellFormed_table : table.WellFormed :=
  Grammar.wellFormed_of_ofDeclarations grammar_eq

/-- Programs derive from a symbol of the table, which stands in it under its number. -/
theorem owns_root : table.Owns root := rfl

/-- The octets that end a statement. -/
def terminator : Bytes := Bytes.ofString ";\n"

/-- The symbols below a statement. -/
def inner : List Nat := [3, 4, 5, 6, 7, 8, 9]

/-- Semicolons and new lines do not occur below a statement. It is decided by looking at the
literals of the symbols listed. -/
theorem lacks_terminator : table.Lacks inner terminator := by decide

/-- The literals of each row are nested. Brackets are opened and closed within a row, and parts that
stand between them do not have to be looked at. -/
theorem nested_rows : ∀ production ∈ table.productions, ∀ row ∈ production.rows,
    Bytes.Nested (row.flatMap Part.spelling) := by decide

/-- What fits a symbol of the table is an expansion of it, since a number stands for one symbol
only. -/
theorem rooted_of_fits {id : Nat} {symbol : Symbol} {tree : Tree}
    (fits : table.Fits Grammar.Rooted (.symbol id) tree)
    (found : table.symbols[id]? = some symbol) : tree.symbol? = some symbol := by
  obtain ⟨other, placed, rooted⟩ := fits
  obtain rfl : other = symbol := Option.some.inj (placed.symm.trans found)
  exact rooted

/-- A program has its statements, and nothing else, below it. -/
theorem exists_statements {tree : Tree} (conforms : tree.Conforms table)
    (rooted : tree.symbol? = some root) :
    ∃ parts, tree = .expansion root [.expansion statements parts] ∧
      ∀ part ∈ parts, part.symbol? = some statement ∧ part.Conforms table := by
  obtain ⟨children, rfl, ⟨-, row, member, fits⟩, below⟩ := conforms.expansion rooted
  obtain rfl := List.mem_singleton.mp member
  obtain _ | ⟨first, _ | _⟩ := fits
  have list := rooted_of_fits first rfl
  obtain ⟨parts, rfl, ⟨-, each⟩, partsConform⟩ := (below _ List.mem_cons_self).expansion list
  exact ⟨parts, rfl, fun part among => ⟨rooted_of_fits (each part among) rfl,
    partsConform part among⟩⟩

/-- The rows of a statement end with the octets that end one, and have them nowhere else. -/
theorem statement_rows :
    ∀ production ∈ table.productions[statement.id]?, ∀ row ∈ production.rows,
      ∃ parts spelling, row = parts ++ [.literal (spelling ++ terminator)] ∧
        (∀ part ∈ parts, part.Lacks inner terminator) ∧
          ∀ octet ∈ terminator, octet ∉ spelling := by
  rintro production ⟨⟩ row member
  rcases List.mem_pair.mp member with rfl | rfl
  · exact ⟨[.symbol 9, spelled " = ", .symbol 3], [], rfl, by decide +kernel, by decide +kernel⟩
  · exact ⟨[spelled "print(", .symbol 3], Bytes.ofString ")", rfl, by decide +kernel,
      by decide +kernel⟩

/-- A statement ends with the octets that end one, and has them nowhere else. Its row says so of its
literals, and below its parts they do not occur. -/
theorem exists_body {tree : Tree} (conforms : tree.Conforms table)
    (rooted : tree.symbol? = some statement) :
    ∃ body, tree.render = body ++ terminator ∧ ∀ octet ∈ terminator, octet ∉ body := by
  obtain ⟨children, rfl, ⟨-, row, member, fits⟩, below⟩ := conforms.expansion rooted
  obtain ⟨parts, spelling, rfl, lacks, plain⟩ := statement_rows _ rfl row member
  rw [Tree.render, Tree.renderAll_eq_flatten]
  exact Grammar.exists_body (lacks_terminator.wording.renders wellFormed_table fits below) lacks
    plain

/-- A program that grows has a statement at least, for a repetition that grows has an element at
least. -/
theorem exists_statements_of_grow {σ : Type} [Source σ] {patience : Nat} {source next : σ}
    {tree : Tree} (grown : table.grow patience root 0 source = .ok (some tree) next) :
    ∃ parts, parts ≠ [] ∧ tree = .expansion root [.expansion statements parts] ∧
      ∀ part ∈ parts, part.symbol? = some statement ∧ part.Conforms table := by
  have known := table.grow_ends patience root 0 source
  rw [grown] at known
  have grows := (Grammar.growsAt_iff_derivesAt wellFormed_table).mp (known tree rfl)
  have derives := grows.derives owns_root
  obtain ⟨parts, rfl, each⟩ := exists_statements derives.conforms derives.1
  have list := derives.at? (show Tree.at? _ [0] = some (.expansion statements parts) from rfl)
  obtain ⟨_, ⟨⟩, ⟨-, inhabits⟩, -⟩ := list.expansion
  exact ⟨parts, inhabits rfl, rfl, each⟩

/-- A program is rendered as its statements are, one behind the other, with nothing around them. -/
theorem render_program (list : Symbol) (parts : List Tree) :
    Tree.render (.expansion root [.expansion list parts]) = (parts.map Tree.render).flatten := by
  simp only [Tree.render, Tree.renderAll, List.append_nil, Tree.renderAll_eq_flatten]

/-- Texts that all end in one way end so together, if there is one. The last of them ends the
whole. -/
theorem suffix_flatten {ending : Bytes} {pieces : List Bytes} (inhabited : pieces ≠ [])
    (each : ∀ piece ∈ pieces, ending <:+ piece) : ending <:+ pieces.flatten := by
  obtain ⟨front, last, rfl⟩ := (List.eq_nil_or_concat pieces).resolve_left inhabited
  rw [List.concat_eq_append, List.flatten_append, List.flatten_singleton]
  exact (each last (by simp)).trans (List.suffix_append _ _)

/-- Every program is well terminated, and its brackets are nested. Whatever conforms to the grammar
of the language and is rooted at the symbol `root` is rendered as its statements are, one behind
the other. Each of them ends with a semicolon and a new line and has neither anywhere else. Round
and square brackets are balanced and properly nested in the whole. What grows from the symbol as a
tree of its own, with any source, has a rendering that is not empty and ends with a semicolon and a
new line. -/
theorem programs_end_and_nest {built : Grammar} (made : grammar = .ok built) {start : Symbol}
    (named : built.symbol? "root" = some start) :
    (∀ tree : Tree, tree.Conforms built → tree.symbol? = some start →
      ∃ list parts, tree = .expansion start [.expansion list parts] ∧
        built.symbol? "statements" = some list ∧
          tree.render = (parts.map Tree.render).flatten ∧
            (∀ part ∈ parts, part.symbol? = built.symbol? "statement" ∧
              ∃ body, part.render = body ++ terminator ∧ ∀ octet ∈ terminator, octet ∉ body) ∧
                tree.render.Nested) ∧
    ∀ {σ : Type} [Source σ] (patience : Nat) (source next : σ) (tree : Tree),
      built.grow patience start 0 source = .ok (some tree) next →
        tree.render ≠ [] ∧ terminator <:+ tree.render := by
  obtain rfl : table = built := Except.ok.inj (grammar_eq.symm.trans made)
  obtain rfl : root = start := Option.some.inj named
  constructor
  · intro tree conforms rooted
    have nested := (Grammar.wording_nested nested_rows).render wellFormed_table conforms rooted
    obtain ⟨parts, rfl, each⟩ := exists_statements conforms rooted
    refine ⟨statements, parts, rfl, rfl, render_program _ parts, fun part member => ?_, nested⟩
    obtain ⟨partRooted, partConforms⟩ := each part member
    exact ⟨partRooted, exists_body partConforms partRooted⟩
  · intro σ _ patience source next tree grown
    obtain ⟨parts, inhabited, rfl, each⟩ := exists_statements_of_grow grown
    have ends : terminator <:+ Tree.render (.expansion root [.expansion statements parts]) := by
      rw [render_program]
      refine suffix_flatten (List.map_eq_nil_iff.not.mpr inhabited) ?_
      refine List.forall_mem_map.mpr fun part member => ?_
      obtain ⟨partRooted, partConforms⟩ := each part member
      obtain ⟨body, rendered, -⟩ := exists_body partConforms partRooted
      exact ⟨body, rendered.symm⟩
    refine ⟨fun empty => ?_, ends⟩
    rw [empty] at ends
    exact absurd ends (by decide)

/-- A program of three statements grows, with brackets of both kinds. -/
theorem programs_end_and_nest_grown :
    grammar = .ok table ∧ table.symbol? "root" = some root ∧
    ∃ tree next, table.grow 50 root 0 (⟨8⟩ : SplitMix) = .ok (some tree) next ∧
      (∃ parts, tree = .expansion root [.expansion statements parts] ∧ parts.length = 3) ∧
      40 ∈ tree.render ∧ 91 ∈ tree.render ∧ tree.render.Nested ∧ terminator <:+ tree.render := by
  have named : table.symbol? "root" = some root := rfl
  obtain ⟨conforming, growing⟩ := programs_end_and_nest grammar_eq named
  have grows : Ends (table.grow 50 root 0 : Chance SplitMix (Option Tree)) _ _ :=
    table.grow_ends 50 root 0
  obtain ⟨_ | tree, next, grown, seen, known⟩ := grows.exists_answer ⟨8⟩
    (fun grown => grown.any fun tree => 40 ∈ tree.render ∧ 91 ∈ tree.render ∧
      tree.children.all fun list => list.children.length == 3) (by decide +kernel)
  · cases seen
  obtain ⟨round, square, three⟩ : 40 ∈ tree.render ∧ 91 ∈ tree.render ∧
    tree.children.all (fun list => list.children.length == 3) = true := of_decide_eq_true seen
  obtain ⟨conforms, rooted⟩ := (known tree rfl).conforms wellFormed_table owns_root
  obtain ⟨list, parts, rfl, listed, -, -, nested⟩ := conforming tree conforms rooted
  obtain rfl : statements = list := Option.some.inj listed
  refine ⟨grammar_eq, named, _, next, grown, ⟨parts, rfl, ?_⟩, round, square, nested,
    (growing 50 _ next _ grown).2⟩
  simpa [Tree.children] using three

end Graft.Campaign.Statements
