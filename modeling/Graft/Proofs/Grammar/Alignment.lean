import Graft.Grammar.Growth
import Graft.Proofs.Grammar.Derivation
import Graft.Proofs.Grammar.Verdict

/-!
# The tables of built grammars are aligned

What calls build is a table with one line for each declared name. The symbol and the
production of a line speak of the same name, and refer to lines of the table only. So
growth never meets a number that is not in the table: whatever were put for the symbol
or the production that is looked up in vain, growth would be the same.
-/

namespace Graft.Grammar

open Graft.Random

/-! ## Lines of the table -/

/-- The production is what the calls say of a name: all of its rows in their order, or its one
repetition, with numbers of names for the names. -/
inductive Produced (calls : List Declaration) (name : String) : Production → Prop where
  | alternatives {rows : List (List Part)} (plain : elementsOf calls name = [])
    (given : rowsOf calls name ≠ [])
    (parts : List.Forall₂ (List.Forall₂ (PartResolution (declaredNames calls)))
      (rowsOf calls name) rows) : Produced calls name (.alternatives rows)
  | repetition {repeated : String} {element : Nat} (rowless : rowsOf calls name = [])
    (repeats : elementsOf calls name = [repeated])
    (named : (declaredNames calls)[element]? = some repeated) :
    Produced calls name (.repetition element)

/-- The symbol carries what its production repeats, which is the table's own symbol of that
number, and nothing if its production has rows. -/
def Carries (grammar : Grammar) (symbol : Symbol) : Production → Prop
  | .alternatives _ => symbol.element? = none
  | .repetition number =>
    ∃ element, symbol.element? = some element ∧ grammar.symbols[number]? = some element

/-- A table whose lines are those of the names that the calls declare. -/
structure Aligned (calls : List Declaration) (grammar : Grammar) : Prop where
  /-- There is one symbol for each declared name, in the order of the first declarations. -/
  names : grammar.symbols.map Symbol.name = declaredNames calls
  /-- Each symbol has the number of its line. -/
  numbered : ∀ (id : Nat) (symbol : Symbol), grammar.symbols[id]? = some symbol → symbol.id = id
  /-- A declared name finds the symbol of its line. -/
  found : ∀ (id : Nat) (name : String), (declaredNames calls)[id]? = some name →
    grammar.symbol? name = grammar.symbols[id]?
  /-- No other name finds anything. -/
  absent : ∀ name, name ∉ declaredNames calls → grammar.symbol? name = none
  /-- Each production is what the calls say of the name of its line. -/
  productions : List.Forall₂ (Produced calls) (declaredNames calls) grammar.productions
  /-- Symbol and production of a line agree on what is repeated. -/
  elements : List.Forall₂ grammar.Carries grammar.symbols grammar.productions

section Lines

variable {calls : List Declaration} {grammar : Grammar}

/-- What a definition of the calls is resolved into is what they say of its name. No name clashes,
so that its one definition holds all that is said. -/
theorem produced_of_resolution (unclashing : ∀ name, ¬ Clashes calls name)
    {definition : Definition} (member : definition ∈ (gathered calls).definitions)
    {production : Production}
    (resolution : Resolution (declaredNames calls) definition production) :
    Produced calls definition.name production := by
  cases resolution with
  | @alternatives owner given rows parts =>
    obtain ⟨rfl, some⟩ := mem_definitions_alternatives_iff.mp member
    exact .alternatives (elementsOf_eq_nil (unclashing owner) some) some parts
  | @repetition owner repeated element named =>
    have follows := mem_definitions_repetition_iff.mp member
    have repeats := elementsOf_eq_singleton (unclashing owner) follows
    exact .repetition (rowsOf_eq_nil (unclashing owner) (List.ne_nil_of_mem follows)) repeats named

/-- What calls build is a resolution of what they are gathered into. The passes are gone from this
law on, as they do what following each chain does. -/
theorem resolves_of_build (built : build calls = .ok grammar) :
    Resolves (gathered calls) grammar := by
  rw [build_eq_ofDeclarations] at built
  exact resolves_of_ofDraft built

/-- What calls build is aligned: names are numbered by their first declaration, and productions,
symbols and elements are looked up by these numbers. -/
theorem aligned_of_build (built : build calls = .ok grammar) : Aligned calls grammar := by
  have resolves := resolves_of_build built
  have wellFormed := resolves.wellFormed
  have declared := names_eq_declaredNames resolves.distinct
  have names : grammar.symbols.map Symbol.name = declaredNames calls :=
    resolves.map_name.trans declared
  have counted : grammar.symbols.length = grammar.productions.length := by
    rw [← resolves.productions.length_eq, ← List.length_map (f := Symbol.name), resolves.map_name,
      Draft.names, List.length_map]
  refine ⟨names, fun id symbol => wellFormed.id_of_getElem?, ?found, ?absent, ?productions,
    ?elements⟩
  case found =>
    intro id name named
    rw [← names, List.getElem?_map] at named
    obtain ⟨symbol, placed, rfl⟩ := Option.map_eq_some_iff.mp named
    rw [placed]
    refine wellFormed.symbol?_eq_some_iff.mpr ⟨?_, rfl⟩
    rw [Owns, wellFormed.id_of_getElem? placed]
    exact placed
  case absent =>
    intro name undeclared
    cases lookup : grammar.symbol? name with
    | none => rfl
    | some symbol =>
      obtain ⟨owned, rfl⟩ := wellFormed.symbol?_eq_some_iff.mp lookup
      refine absurd ?_ undeclared
      rw [← names]
      exact List.mem_map_of_mem (List.mem_of_getElem? owned)
  case productions =>
    have unclashing := nodup_names_iff.mp resolves.distinct
    have each := resolves.productions.flip
    rw [declared] at each
    rw [← declared, Draft.names, List.forall₂_map_left_iff]
    exact (forall₂_imp_of_mem each fun production definition member done =>
      produced_of_resolution unclashing member (resolution_of_ok done)).flip
  case elements =>
    refine List.forall₂_iff_get.mpr ⟨counted, fun id inside produced => ?_⟩
    have placed := List.getElem?_eq_getElem inside
    have owned : grammar.Owns grammar.symbols[id] := by
      rw [Owns, wellFormed.id_of_getElem? placed]
      exact placed
    have production : grammar.productions[grammar.symbols[id].id]? =
        some grammar.productions[id] := by
      rw [wellFormed.id_of_getElem? placed, List.getElem?_eq_getElem produced]
    rw [List.get_eq_getElem, List.get_eq_getElem]
    cases kind : grammar.productions[id] with
    | alternatives rows =>
      rw [kind] at production
      exact wellFormed.plain _ rows owned production
    | repetition number =>
      rw [kind] at production
      obtain ⟨element, carried, ownsElement, rfl⟩ := wellFormed.repeats _ number owned production
      exact ⟨element, carried, ownsElement⟩

end Lines

/-! ## Lookups of growth -/

section Lookups

variable {σ : Type} [Source σ]

/-- Grow the parts of a row, with something else for a symbol that is not in the table. -/
def growRowOr (grammar : Grammar) (lost : Chance σ (Option Tree))
    (grow : Symbol → Chance σ (Option Tree)) : List Part → Chance σ (Option (List Tree))
  | [] => pure (some [])
  | .literal octets :: parts => do
    return (← growRowOr grammar lost grow parts).map (.text octets :: ·)
  | .symbol id :: parts => do
    match ← (match grammar.symbols[id]? with
      | none => lost
      | some symbol => grow symbol) with
    | none => pure none
    | some tree => return (← growRowOr grammar lost grow parts).map (tree :: ·)

/-- Grow a symbol of the table, with something else where its production is not in the table, has
no rows, or repeats what the symbol does not carry. -/
def growNodeOr (grammar : Grammar) (lost : Chance σ (Option Tree)) (patience : Nat) :
    (budget : Nat) → Symbol → Chance σ (Option Tree)
  | 0, _ =>
    if grammar.maxDepth < Depth.greatest then pure none else throw .depthUncountable
  | budget + 1, symbol =>
    match grammar.productions[symbol.id]? with
    | none => lost
    | some (.alternatives []) => lost
    | some (.alternatives rows) => do
      let place ← Chance.below rows.length
      match rows[place]? with
      | none => throw (.positionPastEnd place rows.length)
      | some row =>
        return (← growRowOr grammar lost (growNodeOr grammar lost patience budget) row).map
          (.expansion symbol)
    | some (.repetition _) =>
      match symbol.element? with
      | none => lost
      | some element => do
        let run ← growRun grammar.repeatProbability
          (growNodeOr grammar lost patience budget element) patience
        return run.map (.expansion symbol)

/-- Grow a symbol as a node of the given depth, with something else for every lookup that
fails. A symbol that has not the name of its number is no failed lookup. -/
def growOr (grammar : Grammar) (lost : Chance σ (Option Tree)) (patience : Nat)
    (symbol : Symbol) (depth : Nat) : Chance σ (Option Tree) :=
  match grammar.symbols[symbol.id]? with
  | none => lost
  | some own =>
    if own.name == symbol.name then
      grammar.growNodeOr lost patience (grammar.maxDepth + 1 - depth) own
    else pure none

section Nothing

variable (grammar : Grammar)

omit [Source σ] in
/-- A row in which a symbol that is not in the table does not grow is a row of growth. Growth
answers a lookup that fails with nothing, and the two differ in that answer only. -/
theorem growRowOr_nothing (grow : Symbol → Chance σ (Option Tree)) (parts : List Part) :
    grammar.growRowOr (pure none) grow parts = grammar.growRow grow parts := by
  induction parts with
  | nil => rfl
  | cons part parts inductionHypothesis =>
    cases part with
    | literal octets => rw [growRowOr, growRow, inductionHypothesis]
    | symbol id =>
      rw [growRowOr, growRow, inductionHypothesis]
      cases grammar.symbols[id]? with
      | none => rfl
      | some symbol => rfl

/-- A node for which lookups that fail give nothing is a node of growth. The induction is on the
budget, with which the nodes below grow. -/
theorem growNodeOr_nothing (patience budget : Nat) :
    (grammar.growNodeOr (pure none) patience budget : Symbol → Chance σ (Option Tree)) =
      grammar.growNode patience budget := by
  induction budget with
  | zero =>
    funext symbol
    rfl
  | succ budget inductionHypothesis =>
    funext symbol
    rw [growNodeOr, growNode, inductionHypothesis]
    cases grammar.productions[symbol.id]? with
    | none => rfl
    | some production =>
      cases production with
      | alternatives rows =>
        cases rows with
        | nil => rfl
        | cons first others =>
          simp only
          congr 1
          funext place
          cases (first :: others)[place]? with
          | none => rfl
          | some row => simp only [growRowOr_nothing]
      | repetition number => cases symbol.element? <;> rfl

/-- With nothing for every lookup that fails, growth is what it is. So growth is one among the
variants that a law about all of them speaks of. -/
theorem growOr_nothing (patience : Nat) (symbol : Symbol) (depth : Nat) :
    (grammar.growOr (pure none) patience symbol depth : Chance σ (Option Tree)) =
      grammar.grow patience symbol depth := by
  rw [growOr, grow]
  cases grammar.symbols[symbol.id]? with
  | none => rfl
  | some own => simp only [growNodeOr_nothing]

end Nothing

section Tables

variable {calls : List Declaration} {grammar : Grammar} {lost : Chance σ (Option Tree)}

/-- What stands in the table of a list of calls is owned by it, since it has its place for its
number. -/
theorem Aligned.owns (aligned : Aligned calls grammar) {id : Nat} {symbol : Symbol}
    (placed : grammar.symbols[id]? = some symbol) : grammar.Owns symbol := by
  rw [Owns, aligned.numbered id symbol placed]
  exact placed

/-- The number of a declared name has a symbol in the table. There are as many symbols as declared
names. -/
theorem Aligned.exists_symbol (aligned : Aligned calls grammar) {id : Nat} {name : String}
    (named : (declaredNames calls)[id]? = some name) :
    ∃ symbol, grammar.symbols[id]? = some symbol := by
  rw [← aligned.names, List.getElem?_map] at named
  obtain ⟨symbol, placed, -⟩ := Option.map_eq_some_iff.mp named
  exact ⟨symbol, placed⟩

/-- A symbol of the table has its production there, which is what the calls say of its name, and
carries an element just if that is a repetition. -/
theorem Aligned.exists_production (aligned : Aligned calls grammar) {symbol : Symbol}
    (owned : grammar.Owns symbol) :
    ∃ production, grammar.productions[symbol.id]? = some production ∧
      Produced calls symbol.name production ∧ grammar.Carries symbol production := by
  obtain ⟨production, produced, carries, -⟩ := forall₂_at aligned.elements owned
  obtain ⟨name, named, told, -⟩ := forall₂_at aligned.productions.flip produced
  rw [← aligned.names, List.getElem?_map, owned] at named
  obtain rfl : symbol.name = name := Option.some.inj named
  exact ⟨production, produced, told, carries⟩

omit [Source σ] in
/-- In a row of symbols of the table no lookup fails, so that it does not matter what would be
answered. -/
theorem growRowOr_eq {one other : Symbol → Chance σ (Option Tree)} {parts : List Part}
    (inside : ∀ id, Part.symbol id ∈ parts →
      ∃ symbol, grammar.symbols[id]? = some symbol ∧ one symbol = other symbol) :
    grammar.growRowOr lost one parts = grammar.growRow other parts := by
  induction parts with
  | nil => rfl
  | cons part parts inductionHypothesis =>
    have further := inductionHypothesis fun id later => inside id (List.mem_cons_of_mem _ later)
    cases part with
    | literal octets => rw [growRowOr, growRow, further]
    | symbol id =>
      obtain ⟨symbol, placed, same⟩ := inside id List.mem_cons_self
      rw [growRowOr, growRow, further, placed]
      exact congrArg (· >>= _) same

/-- A reference of a row that is resolved is to a symbol of the table, for it was resolved to the
number of a declared name. -/
theorem Aligned.exists_symbol_of_mem (aligned : Aligned calls grammar)
    {given : List (List NamedPart)} {rows : List (List Part)}
    (resolved : List.Forall₂ (List.Forall₂ (PartResolution (declaredNames calls))) given rows)
    {row : List Part} (rowMember : row ∈ rows) {id : Nat} (member : Part.symbol id ∈ row) :
    ∃ symbol, grammar.symbols[id]? = some symbol := by
  obtain ⟨named, -, parts⟩ := related_of_mem resolved rowMember
  obtain ⟨part, -, resolution⟩ := related_of_mem parts member
  cases resolution with
  | symbol referenced => exact aligned.exists_symbol referenced

/-- A symbol of the table grows without a lookup that fails. The induction is on the budget: the
symbols of its rows and its element are in the table again. -/
theorem growNodeOr_eq (aligned : Aligned calls grammar) (patience budget : Nat) {symbol : Symbol}
    (owned : grammar.Owns symbol) :
    grammar.growNodeOr lost patience budget symbol = grammar.growNode patience budget symbol := by
  induction budget generalizing symbol with
  | zero => rfl
  | succ budget inductionHypothesis =>
    obtain ⟨production, produced, told, carries⟩ := aligned.exists_production owned
    rw [growNodeOr, growNode, produced]
    cases told with
    | @alternatives rows plain given parts =>
      cases rows with
      | nil => exact absurd (List.forall₂_nil_right_iff.mp parts) given
      | cons first others =>
        simp only
        congr 1
        funext place
        cases picked : (first :: others)[place]? with
        | none => rfl
        | some row =>
          have within := List.mem_of_getElem? picked
          have grown : grammar.growRowOr lost (grammar.growNodeOr lost patience budget) row =
              grammar.growRow (grammar.growNode patience budget) row := by
            refine growRowOr_eq fun id member => ?_
            obtain ⟨referenced, placed⟩ := aligned.exists_symbol_of_mem parts within member
            exact ⟨referenced, placed, inductionHypothesis (aligned.owns placed)⟩
          simp only [grown]
    | repetition rowless repeats named =>
      obtain ⟨element, carried, placed⟩ := carries
      simp only [carried, inductionHypothesis (aligned.owns placed)]

/-- A symbol whose number is in the table grows without a lookup that fails. Its name may be another
one, and then it does not grow at all. -/
theorem growOr_eq (aligned : Aligned calls grammar) (patience : Nat) {symbol : Symbol}
    (inside : symbol.id < grammar.symbols.length) (depth : Nat) :
    grammar.growOr lost patience symbol depth = grammar.grow patience symbol depth := by
  have placed := List.getElem?_eq_getElem inside
  rw [growOr, grow, placed]
  simp only [growNodeOr_eq aligned _ _ (aligned.owns placed)]

end Tables

end Lookups

/-- What calls build is aligned. Growth of its symbols never depends on what a lookup that fails
is answered with, where growth itself answers it with nothing. -/
theorem build_aligned {calls : List Declaration} {grammar : Grammar}
    (built : build calls = .ok grammar) :
    Aligned calls grammar ∧
      ∀ (σ : Type) [Source σ] (patience : Nat) (symbol : Symbol) (depth : Nat),
        (grammar.growOr (pure none) patience symbol depth : Chance σ (Option Tree)) =
            grammar.grow patience symbol depth ∧
          (symbol.id < grammar.symbols.length → ∀ lost : Chance σ (Option Tree),
            grammar.growOr lost patience symbol depth = grammar.grow patience symbol depth) := by
  have aligned := aligned_of_build built
  refine ⟨aligned, fun σ _ patience symbol depth => ⟨?_, fun inside lost => ?_⟩⟩
  · exact growOr_nothing grammar patience symbol depth
  · exact growOr_eq aligned patience inside depth

/-- Repetitions that are declared before their elements, and rows of one name apart from each
other, are in one table with what they refer to. -/
theorem build_aligned_nested : ∃ grammar,
    build [.repetition "lists" "list", .rule "digit" [.literal [48]], .repetition "list" "digit",
      .rule "end" [], .rule "digit" [.symbol "end"]] = .ok grammar ∧
    grammar.productions = [.repetition 2, .alternatives [[.literal [48]], [.symbol 3]],
      .repetition 1, .alternatives [[]]] ∧
    Aligned [.repetition "lists" "list", .rule "digit" [.literal [48]],
      .repetition "list" "digit", .rule "end" [], .rule "digit" [.symbol "end"]] grammar := by
  have built : build [.repetition "lists" "list", .rule "digit" [.literal [48]],
      .repetition "list" "digit", .rule "end" [], .rule "digit" [.symbol "end"]] =
      .ok ⟨[.repetition 0 "lists" (.repetition 2 "list" (.plain 1 "digit")), .plain 1 "digit",
          .repetition 2 "list" (.plain 1 "digit"), .plain 3 "end"],
        [.repetition 2, .alternatives [[.literal [48]], [.symbol 3]], .repetition 1,
          .alternatives [[]]],
        [("lists", 0), ("digit", 1), ("list", 2), ("end", 3)], 100, 0.75⟩ := by
    rw [build_eq_ofDeclarations]
    rfl
  exact ⟨_, built, rfl, (build_aligned built).1⟩

end Graft.Grammar
