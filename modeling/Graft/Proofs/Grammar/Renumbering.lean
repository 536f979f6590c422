import Graft.Proofs.Correspondence
import Graft.Proofs.Grammar.Table

/-!
# One grammar under two numberings

Two tables hold one grammar if they know the same names and the symbols of each
name, its *twins*, expand alike. Numbers differ between the tables, in the
symbols, in the elements of repetitions and in the rows of productions, and are
matched by the names that they stand for.

What is asked of numbers otherwise has the same answer in both tables: whether two
symbols are the same one, whether a symbol is a repetition, and what it repeats.
-/

namespace Graft

/-- Two numbers that stand for one name in two tables of names. -/
def SameName (names others : List String) (number other : Nat) : Prop :=
  ∃ name, names[number]? = some name ∧ others[other]? = some name

/-- Two parts that say the same, the numbers of their symbols being matched. -/
inductive Part.Matches (matched : Nat → Nat → Prop) : Part → Part → Prop where
  | literal (octets : Bytes) : Matches matched (.literal octets) (.literal octets)
  | symbol {number other : Nat} (numbers : matched number other) :
    Matches matched (.symbol number) (.symbol other)

/-- Two productions that say the same, the numbers of their symbols being matched. -/
inductive Production.Matches (matched : Nat → Nat → Prop) : Production → Production → Prop where
  | alternatives {rows others : List (List Part)}
    (each : List.Forall₂ (List.Forall₂ (Part.Matches matched)) rows others) :
    Matches matched (.alternatives rows) (.alternatives others)
  | repetition {number other : Nat} (numbers : matched number other) :
    Matches matched (.repetition number) (.repetition other)

namespace Grammar

/-- Two symbols that two grammars have under the one name that both bear. -/
def Twins (left right : Grammar) (symbol other : Symbol) : Prop :=
  left.symbol? symbol.name = some symbol ∧ right.symbol? other.name = some other ∧
    symbol.name = other.name

/-- The names of the symbols, in the order of their numbers. -/
def names (grammar : Grammar) : List String :=
  grammar.symbols.map Symbol.name

/-- Two grammars that differ in nothing but the numbers of their symbols. -/
structure Renumbered (left right : Grammar) : Prop where
  leftFormed : left.WellFormed
  rightFormed : right.WellFormed
  /-- Both grammars know the same names. -/
  known : ∀ name, name ∈ left.names ↔ name ∈ right.names
  /-- The symbols of one name expand alike. -/
  productions : ∀ symbol other, left.Twins right symbol other →
    ∃ production twin, left.productions[symbol.id]? = some production ∧
      right.productions[other.id]? = some twin ∧
        production.Matches (SameName left.names right.names) twin
  maxDepth : left.maxDepth = right.maxDepth
  repeatProbability : left.repeatProbability = right.repeatProbability

namespace WellFormed

variable {grammar : Grammar}

/-- What stands in the table is found under its name, for no name has two symbols. -/
theorem symbol?_of_getElem? (wellFormed : grammar.WellFormed) {number : Nat} {symbol : Symbol}
    (placed : grammar.symbols[number]? = some symbol) :
    grammar.symbol? symbol.name = some symbol :=
  wellFormed.symbol?_eq_some_iff.mpr
    ⟨wellFormed.numbered symbol (List.mem_of_getElem? placed), rfl⟩

/-- A name finds a symbol exactly if the table has the name. The number that stands between the name
and the symbol is not seen from outside. -/
theorem mem_names_iff (wellFormed : grammar.WellFormed) {name : String} :
    name ∈ grammar.names ↔ ∃ symbol, grammar.symbol? name = some symbol := by
  constructor
  · intro member
    obtain ⟨symbol, listed, rfl⟩ := List.mem_map.mp member
    exact ⟨symbol, wellFormed.symbol?_eq_some_iff.mpr ⟨wellFormed.numbered symbol listed, rfl⟩⟩
  · rintro ⟨symbol, found⟩
    obtain ⟨owned, rfl⟩ := wellFormed.symbol?_eq_some_iff.mp found
    exact List.mem_map_of_mem (List.mem_of_getElem? owned)

/-- Symbols of the table are the same one exactly if they bear one name. They are compared by
number, and in a well-formed table numbers and names go together. -/
theorem same_iff_name (wellFormed : grammar.WellFormed) {first second : Symbol}
    (firstOwned : grammar.Owns first) (secondOwned : grammar.Owns second) :
    first.same second = true ↔ first.name = second.name := by
  rw [Symbol.same, beq_iff_eq]
  constructor
  · intro sameNumber
    rw [firstOwned.eq_of_id secondOwned sameNumber]
  · intro sameName
    have found := wellFormed.symbol?_eq_some_iff.mpr ⟨firstOwned, sameName⟩
    have otherFound := wellFormed.symbol?_eq_some_iff.mpr ⟨secondOwned, rfl⟩
    rw [Option.some.inj (found.symm.trans otherFound)]

end WellFormed

/-- Twins have numbers that stand for one name. This is how what is said of numbers is carried from
the one table to the other. -/
theorem Twins.sameName {left right : Grammar} (leftFormed : left.WellFormed)
    (rightFormed : right.WellFormed) {symbol other : Symbol}
    (twins : left.Twins right symbol other) :
    SameName left.names right.names symbol.id other.id := by
  obtain ⟨found, otherFound, sameName⟩ := twins
  obtain ⟨owned, -⟩ := leftFormed.symbol?_eq_some_iff.mp found
  obtain ⟨otherOwned, -⟩ := rightFormed.symbol?_eq_some_iff.mp otherFound
  rw [Owns] at owned otherOwned
  refine ⟨symbol.name, ?_, ?_⟩
  · rw [names, List.getElem?_map, owned, Option.map_some]
  · rw [names, List.getElem?_map, otherOwned, Option.map_some, sameName]

/-- Symbols that two well-formed tables have under one name are twins, whatever their numbers
are. -/
theorem twins_of_symbol? {left right : Grammar} (leftFormed : left.WellFormed)
    (rightFormed : right.WellFormed) {name : String} {symbol other : Symbol}
    (found : left.symbol? name = some symbol) (otherFound : right.symbol? name = some other) :
    left.Twins right symbol other := by
  have named := leftFormed.name_of_symbol? found
  have otherNamed := rightFormed.name_of_symbol? otherFound
  exact ⟨named ▸ found, otherNamed ▸ otherFound, named.trans otherNamed.symm⟩

namespace Renumbered

variable {left right : Grammar}

/-- A name that finds a symbol in the one grammar finds its twin in the other, and a name that finds
nothing finds nothing there either. -/
theorem symbol? (renumbered : left.Renumbered right) (name : String) :
    Option.Rel (left.Twins right) (left.symbol? name) (right.symbol? name) := by
  have known := renumbered.known name
  rw [renumbered.leftFormed.mem_names_iff, renumbered.rightFormed.mem_names_iff] at known
  cases found : left.symbol? name with
  | none =>
    cases otherFound : right.symbol? name with
    | none => exact .none
    | some other =>
      obtain ⟨symbol, present⟩ := known.mpr ⟨other, otherFound⟩
      rw [found] at present
      cases present
  | some symbol =>
    obtain ⟨other, otherFound⟩ := known.mp ⟨symbol, found⟩
    rw [otherFound]
    exact .some (twins_of_symbol? renumbered.leftFormed renumbered.rightFormed found otherFound)

/-- Numbers that stand for one name have twins for their symbols. Lookups of the parts of a row go
by number, and this says what they find. -/
theorem twins_of_sameName (renumbered : left.Renumbered right) {number other : Nat}
    (numbers : SameName left.names right.names number other) :
    ∃ symbol twin, left.symbols[number]? = some symbol ∧ right.symbols[other]? = some twin ∧
      left.Twins right symbol twin := by
  obtain ⟨name, named, otherNamed⟩ := numbers
  simp only [names, List.getElem?_map, Option.map_eq_some_iff] at named otherNamed
  obtain ⟨symbol, placed, rfl⟩ := named
  obtain ⟨twin, otherPlaced, sameName⟩ := otherNamed
  exact ⟨symbol, twin, placed, otherPlaced, renumbered.leftFormed.symbol?_of_getElem? placed,
    renumbered.rightFormed.symbol?_of_getElem? otherPlaced, sameName.symm⟩

/-- Both twins are symbols of their tables, and they bear one name. For each of them the laws of its
own table hold. -/
theorem owned (renumbered : left.Renumbered right) {symbol other : Symbol}
    (twins : left.Twins right symbol other) :
    left.Owns symbol ∧ right.Owns other ∧ symbol.name = other.name := by
  obtain ⟨found, otherFound, named⟩ := twins
  exact ⟨renumbered.leftFormed.owns_of_symbol? found,
    renumbered.rightFormed.owns_of_symbol? otherFound, named⟩

/-- Two symbols are the same one exactly if their twins are, as either is to bear one name. -/
theorem same (renumbered : left.Renumbered right) {first second firstTwin secondTwin : Symbol}
    (firsts : left.Twins right first firstTwin) (seconds : left.Twins right second secondTwin) :
    first.same second = firstTwin.same secondTwin := by
  obtain ⟨firstOwned, firstTwinOwned, firstNamed⟩ := renumbered.owned firsts
  obtain ⟨secondOwned, secondTwinOwned, secondNamed⟩ := renumbered.owned seconds
  rw [Bool.eq_iff_iff, renumbered.leftFormed.same_iff_name firstOwned secondOwned,
    renumbered.rightFormed.same_iff_name firstTwinOwned secondTwinOwned, firstNamed, secondNamed]

/-- Twins repeat twins, or neither is a repetition. Their productions match, and the element is what
the production refers to. -/
theorem element? (renumbered : left.Renumbered right) {symbol other : Symbol}
    (twins : left.Twins right symbol other) :
    Option.Rel (left.Twins right) symbol.element? other.element? := by
  obtain ⟨leftOwned, rightOwned, -⟩ := renumbered.owned twins
  obtain ⟨production, twin, produced, otherProduced, expandAlike⟩ :=
    renumbered.productions symbol other twins
  cases expandAlike with
  | alternatives each =>
    rw [renumbered.leftFormed.plain symbol _ leftOwned produced,
      renumbered.rightFormed.plain other _ rightOwned otherProduced]
    exact .none
  | repetition numbers =>
    obtain ⟨element, carried, elementOwned, rfl⟩ :=
      renumbered.leftFormed.repeats symbol _ leftOwned produced
    obtain ⟨otherElement, otherCarried, otherElementOwned, rfl⟩ :=
      renumbered.rightFormed.repeats other _ rightOwned otherProduced
    obtain ⟨repeated, twinRepeated, placed, otherPlaced, elements⟩ :=
      renumbered.twins_of_sameName numbers
    obtain rfl := Option.some.inj (placed.symm.trans elementOwned)
    obtain rfl := Option.some.inj (otherPlaced.symm.trans otherElementOwned)
    rw [carried, otherCarried]
    exact .some elements

/-- Twins are both repetitions or neither is, since what they carry corresponds, be it an element or
nothing. -/
theorem isRepetition (renumbered : left.Renumbered right) {symbol other : Symbol}
    (twins : left.Twins right symbol other) : symbol.isRepetition = other.isRepetition :=
  isSome_eq_of_rel (renumbered.element? twins)

end Renumbered

end Grammar

end Graft
