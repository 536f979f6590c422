import Mathlib.Data.List.Nodup
import Graft.Grammar.Declaration

/-!
# What the calls of a declaration say

Each call says some things of names: that a name has a row, or that it repeats another
name. Told one by one, these *entries* are what a table is to be judged by. The calls
are gathered by name before they are resolved, and nothing is lost or invented in it:
of each name all rows are gathered in their order, as one definition if there are any,
and all repetitions, one definition for each. Names are met in the order of their
first entry.
-/

namespace Graft

/-- One thing that is said of a name. -/
inductive Entry where
  /-- The name has this row. -/
  | row (name : String) (row : List NamedPart)
  /-- The name repeats this element. -/
  | repetition (name element : String)
deriving DecidableEq, Repr

namespace Entry

/-- The name that something is said of. -/
def name : Entry → String
  | .row name _ => name
  | .repetition name _ => name

/-- The row that is said of a name. -/
def row? (name : String) : Entry → Option (List NamedPart)
  | .row owner given => if owner = name then some given else none
  | .repetition _ _ => none

/-- The element that a name is said to repeat. -/
def element? (name : String) : Entry → Option String
  | .row _ _ => none
  | .repetition owner element => if owner = name then some element else none

end Entry

/-- What a call says of names. Of no literals nothing is said. -/
def Declaration.entries : Declaration → List Entry
  | .rule name row => [.row name row]
  | .literals name texts => texts.map fun text => .row name [.literal text]
  | .repetition name element => [.repetition name element]
  | .maxDepth _ => []
  | .repeatProbability _ => []

namespace Grammar

/-- What a list of calls says of names, in the order in which it is said. -/
def entries (calls : List Declaration) : List Entry :=
  calls.flatMap Declaration.entries

/-- The rows that are given for a name. -/
def rowsOf (calls : List Declaration) (name : String) : List (List NamedPart) :=
  (entries calls).filterMap (Entry.row? name)

/-- What a name is said to repeat, once for each time that it is said. -/
def elementsOf (calls : List Declaration) (name : String) : List String :=
  (entries calls).filterMap (Entry.element? name)

/-- The declared names, each of them once, in the order of their first declaration. -/
def declaredNames (calls : List Declaration) : List String :=
  ((entries calls).map Entry.name).eraseDups

namespace Definition

/-- The rows of a definition, if it is one of the name by rows. -/
def rows? (name : String) : Definition → Option (List (List NamedPart))
  | .alternatives owner rows => if owner = name then some rows else none
  | .repetition _ _ => none

/-- What a definition repeats, if it is one of the name by a repetition. -/
def element? (name : String) : Definition → Option String
  | .alternatives _ _ => none
  | .repetition owner element => if owner = name then some element else none

/-- The rows of a name are those of its definition by rows. -/
theorem rows?_eq_some_iff {name : String} {definition : Definition}
    {rows : List (List NamedPart)} :
    definition.rows? name = some rows ↔ definition = .alternatives name rows := by
  cases definition <;> simp [rows?, eq_comm]

/-- What a name repeats is the element of its definition by a repetition. A definition by rows
repeats nothing, whatever its name is. -/
theorem element?_eq_some_iff {name element : String} {definition : Definition} :
    definition.element? name = some element ↔ definition = .repetition name element := by
  cases definition <;> simp [element?, eq_comm]

/-- Each definition of a name is one by rows or one by a repetition. So the names among the
definitions can be counted by counting the two kinds. -/
theorem count_name (name : String) (definitions : List Definition) :
    (definitions.map Definition.name).count name =
      (definitions.filterMap (rows? name)).length +
        (definitions.filterMap (element? name)).length := by
  induction definitions with
  | nil => rfl
  | cons definition definitions inductionHypothesis =>
    rw [List.map_cons, List.count_cons, inductionHypothesis]
    cases definition with
    | alternatives owner rows =>
      by_cases here : owner = name
      · simp only [Definition.name, here, rows?, element?, List.filterMap_cons, beq_self_eq_true,
          ↓reduceIte, List.length_cons]
        omega
      · simp [Definition.name, here, rows?, element?, List.filterMap_cons]
    | repetition owner element =>
      by_cases here : owner = name
      · simp only [Definition.name, here, rows?, element?, List.filterMap_cons, beq_self_eq_true,
          ↓reduceIte, List.length_cons]
        omega
      · simp [Definition.name, here, rows?, element?, List.filterMap_cons]

end Definition

/-! ## Entry by entry -/

namespace Draft

/-- One more entry is gathered, be it a row or a repetition. These are the two steps that an
induction on entries takes. -/
def enter (definitions : List Definition) : Entry → List Definition
  | .row name row => addRow name row definitions
  | .repetition name element => definitions ++ [.repetition name element]

/-- A call is taken into account entry by entry. A call of literals is one row for each of its
texts, and the settings of growth have no entries. -/
theorem definitions_declare (draft : Draft) (call : Declaration) :
    (draft.declare call).definitions = call.entries.foldl enter draft.definitions := by
  cases call with
  | rule name row => rfl
  | literals name texts => rw [Declaration.entries, List.foldl_map]; rfl
  | repetition name element => rfl
  | maxDepth depth => rfl
  | repeatProbability probability => rfl

/-- All calls are taken into account entry by entry, so that the induction can be on entries, which
say one thing each. -/
theorem definitions_foldl_declare (calls : List Declaration) (draft : Draft) :
    (calls.foldl declare draft).definitions = (entries calls).foldl enter draft.definitions := by
  induction calls generalizing draft with
  | nil => rfl
  | cons call calls inductionHypothesis =>
    rw [List.foldl_cons, inductionHypothesis, definitions_declare, entries, entries,
      List.flatMap_cons, List.foldl_append]

section Rows

variable (name : String) (row : List NamedPart) (definitions : List Definition)

/-- A row joins those that its name has, or is the first of them. It goes behind the earlier ones,
which keeps rows in the order they were given. -/
theorem filterMap_rows?_addRow :
    (addRow name row definitions).filterMap (Definition.rows? name) =
      match definitions.filterMap (Definition.rows? name) with
      | [] => [[row]]
      | rows :: others => (rows ++ [row]) :: others := by
  fun_induction addRow name row definitions with
  | case1 => simp [Definition.rows?]
  | case2 present rows rest here => simp_all [Definition.rows?]
  | case3 present rows rest elsewhere inductionHypothesis =>
    simp_all [Definition.rows?]
  | case4 present element rest inductionHypothesis =>
    simpa [Definition.rows?, List.filterMap_cons] using inductionHypothesis

/-- A row of another name changes none of the rows, wherever it is put. -/
theorem filterMap_rows?_addRow_of_ne {other : String} (different : name ≠ other) :
    (addRow name row definitions).filterMap (Definition.rows? other) =
      definitions.filterMap (Definition.rows? other) := by
  fun_induction addRow name row definitions with
  | case1 => simp [Definition.rows?, different]
  | case2 present rows rest here => simp_all [Definition.rows?]
  | case3 present rows rest elsewhere inductionHypothesis =>
    simp only [List.filterMap_cons, inductionHypothesis]
  | case4 present element rest inductionHypothesis =>
    simp only [List.filterMap_cons, inductionHypothesis]

/-- A row makes nothing repeat anything, be it of a name that repeats something already. -/
theorem filterMap_element?_addRow (other : String) :
    (addRow name row definitions).filterMap (Definition.element? other) =
      definitions.filterMap (Definition.element? other) := by
  fun_induction addRow name row definitions with
  | case1 => simp [Definition.element?]
  | case2 present rows rest here => simp [Definition.element?, List.filterMap_cons]
  | case3 present rows rest elsewhere inductionHypothesis =>
    simp only [List.filterMap_cons, inductionHypothesis]
  | case4 present element rest inductionHypothesis =>
    simp only [List.filterMap_cons, inductionHypothesis]

/-- The first row of a name adds the name, a further one adds none. A name that was declared a
repetition gets a second definition by its first row, which is refused later. -/
theorem map_name_addRow :
    (addRow name row definitions).map Definition.name =
      if definitions.filterMap (Definition.rows? name) = [] then
        definitions.map Definition.name ++ [name]
      else definitions.map Definition.name := by
  fun_induction addRow name row definitions with
  | case1 => simp [Definition.name]
  | case2 present rows rest here => simp_all [Definition.rows?, Definition.name]
  | case3 present rows rest elsewhere inductionHypothesis =>
    have absent : Definition.rows? name (.alternatives present rows) = none := by
      simp_all [Definition.rows?]
    rw [List.map_cons, inductionHypothesis, List.filterMap_cons_none absent]
    split <;> rfl
  | case4 present element rest inductionHypothesis =>
    have absent : Definition.rows? name (.repetition present element) = none := rfl
    rw [List.map_cons, inductionHypothesis, List.filterMap_cons_none absent]
    split <;> rfl

end Rows

end Draft

/-- A value at the end counts only if it was not there before. The first occurrences are kept, in
order. -/
theorem eraseDups_concat (names : List String) (name : String) :
    (names ++ [name]).eraseDups =
      if name ∈ names then names.eraseDups else names.eraseDups ++ [name] := by
  rw [List.eraseDups_append]
  by_cases present : name ∈ names
  · simp [List.removeAll, present]
  · simp [List.removeAll, present, List.eraseDups_cons]

/-- Names that differ from each other are all kept, and in their order. So without clashes the first
occurrences are all there is. -/
theorem eraseDups_of_nodup {names : List String} (distinct : names.Nodup) :
    names.eraseDups = names := by
  induction names with
  | nil => rfl
  | cons name names inductionHypothesis =>
    obtain ⟨absent, further⟩ := List.nodup_cons.mp distinct
    have others : names.filter (fun other => !other == name) = names := by
      refine List.filter_eq_self.mpr fun other member => ?_
      have different : other ≠ name := fun same => absent (same ▸ member)
      simpa using different
    rw [List.eraseDups_cons, others, inductionHypothesis further]

/-- What has been gathered from some entries: of each name its rows, in one definition if there
are any, and its repetitions, and the names in the order of their first entry. -/
structure Gathers (said : List Entry) (definitions : List Definition) : Prop where
  rows : ∀ name, definitions.filterMap (Definition.rows? name) =
    match said.filterMap (Entry.row? name) with
    | [] => []
    | first :: others => [first :: others]
  elements : ∀ name, definitions.filterMap (Definition.element? name) =
    said.filterMap (Entry.element? name)
  order : (definitions.map Definition.name).eraseDups = (said.map Entry.name).eraseDups

namespace Gathers

variable {said : List Entry} {definitions : List Definition}

/-- A name is gathered exactly if something is said of it, no matter how often. -/
theorem mem_names_iff (gathers : Gathers said definitions) {name : String} :
    name ∈ definitions.map Definition.name ↔ name ∈ said.map Entry.name := by
  rw [← List.mem_eraseDups, gathers.order, List.mem_eraseDups]

/-- The order of the names stays that of their first entries if a name is added for an entry. A name
that is there already changes neither. -/
theorem order_concat (gathers : Gathers said definitions) (name : String) :
    (definitions.map Definition.name ++ [name]).eraseDups =
      (said.map Entry.name ++ [name]).eraseDups := by
  simp only [eraseDups_concat, gathers.order, gathers.mem_names_iff]

/-- One more row is gathered, under its name, behind the rows that are there. The rows of other
names and all repetitions stay as they are. -/
theorem addRow (gathers : Gathers said definitions) (name : String) (row : List NamedPart) :
    Gathers (said ++ [.row name row]) (Draft.addRow name row definitions) where
  rows := by
    intro other
    rw [List.filterMap_append]
    by_cases here : name = other
    · subst here
      rw [Draft.filterMap_rows?_addRow, gathers.rows]
      cases given : said.filterMap (Entry.row? name) with
      | nil => simp [Entry.row?]
      | cons first others => simp [Entry.row?]
    · rw [Draft.filterMap_rows?_addRow_of_ne name row definitions here, gathers.rows]
      simp [Entry.row?, here]
  elements := by
    intro other
    rw [Draft.filterMap_element?_addRow, gathers.elements, List.filterMap_append]
    simp [Entry.element?]
  order := by
    rw [Draft.map_name_addRow, List.map_append]
    change _ = (said.map Entry.name ++ [name]).eraseDups
    by_cases first : definitions.filterMap (Definition.rows? name) = []
    · rw [if_pos first, gathers.order_concat]
    · rw [if_neg first, gathers.order, eraseDups_concat, if_pos]
      rw [← gathers.mem_names_iff, ← List.count_pos_iff, Definition.count_name]
      have some := List.length_pos_of_ne_nil first
      omega

/-- One more repetition is gathered. It makes a definition of its own, even if its name has one. -/
theorem addRepetition (gathers : Gathers said definitions) (name element : String) :
    Gathers (said ++ [.repetition name element]) (definitions ++ [.repetition name element]) where
  rows := by
    intro other
    have noRow : [Definition.repetition name element].filterMap (Definition.rows? other) = [] := rfl
    have noEntry : [Entry.repetition name element].filterMap (Entry.row? other) = [] := rfl
    rw [List.filterMap_append, gathers.rows, List.filterMap_append, noRow, noEntry,
      List.append_nil, List.append_nil]
  elements := by
    intro other
    rw [List.filterMap_append, gathers.elements, List.filterMap_append]
    rfl
  order := by
    rw [List.map_append, List.map_append]
    exact gathers.order_concat name

/-- One more entry is gathered. -/
theorem enter (gathers : Gathers said definitions) (entry : Entry) :
    Gathers (said ++ [entry]) (Draft.enter definitions entry) := by
  cases entry with
  | row name row => exact gathers.addRow name row
  | repetition name element => exact gathers.addRepetition name element

/-- All further entries are gathered, by induction on them from the state that was reached. -/
theorem enterAll (gathers : Gathers said definitions) (further : List Entry) :
    Gathers (said ++ further) (further.foldl Draft.enter definitions) := by
  induction further generalizing said definitions with
  | nil => rwa [List.append_nil]
  | cons entry further inductionHypothesis =>
    have whole := inductionHypothesis (gathers.enter entry)
    rwa [List.append_assoc, List.singleton_append] at whole

/-- Before anything is said nothing is gathered, which is where an induction on entries starts. -/
theorem nothing : Gathers [] [] := ⟨fun _ => rfl, fun _ => rfl, rfl⟩

end Gathers

/-- What a list of calls is gathered into. -/
def gathered (calls : List Declaration) : Draft :=
  calls.foldl Draft.declare {}

section Gathered

variable {calls : List Declaration}

/-- The calls are gathered entry by entry, from nothing. What the draft holds is known from here on
by what the calls say. -/
theorem gathers_gathered (calls : List Declaration) :
    Gathers (entries calls) (gathered calls).definitions := by
  have all := Gathers.nothing.enterAll (entries calls)
  rw [List.nil_append] at all
  rwa [gathered, Draft.definitions_foldl_declare]

/-- A name has one definition by all the rows that are given for it, if any are. Rows that stand
apart among other calls are brought together. -/
theorem mem_definitions_alternatives_iff {name : String} {rows : List (List NamedPart)} :
    .alternatives name rows ∈ (gathered calls).definitions ↔
      rows = rowsOf calls name ∧ rows ≠ [] := by
  have listed : .alternatives name rows ∈ (gathered calls).definitions ↔
      rows ∈ (gathered calls).definitions.filterMap (Definition.rows? name) := by
    simp only [List.mem_filterMap, Definition.rows?_eq_some_iff, exists_eq_right]
  rw [listed, (gathers_gathered calls).rows, rowsOf]
  cases (entries calls).filterMap (Entry.row? name) with
  | nil => simp +contextual
  | cons first others => simp +contextual

/-- A name has one definition for each repetition that is declared of it, also where the repetitions
are of one element. -/
theorem mem_definitions_repetition_iff {name element : String} :
    .repetition name element ∈ (gathered calls).definitions ↔ element ∈ elementsOf calls name := by
  rw [elementsOf, ← (gathers_gathered calls).elements]
  simp only [List.mem_filterMap, Definition.element?_eq_some_iff, exists_eq_right]

/-- A name is numbered exactly if it is declared. To be referred to gives no number, which is why a
reference can be undefined. -/
theorem mem_names_iff_declared {name : String} :
    name ∈ (gathered calls).names ↔ name ∈ declaredNames calls := by
  rw [declaredNames, List.mem_eraseDups]
  exact (gathers_gathered calls).mem_names_iff

/-- The names are numbered by their first declaration, if each has one number. Without clashes there
is one definition for a name, made by its first entry. -/
theorem names_eq_declaredNames (distinct : (gathered calls).names.Nodup) :
    (gathered calls).names = declaredNames calls := by
  rw [declaredNames, ← (gathers_gathered calls).order]
  exact (eraseDups_of_nodup distinct).symm

/-- How often a name is numbered: once for its rows, and once for each repetition. A name that is
numbered twice is a clash. -/
theorem count_names (name : String) :
    (gathered calls).names.count name =
      (if rowsOf calls name = [] then 0 else 1) + (elementsOf calls name).length := by
  rw [Draft.names, Definition.count_name, (gathers_gathered calls).rows,
    (gathers_gathered calls).elements, rowsOf, elementsOf]
  cases (entries calls).filterMap (Entry.row? name) <;> simp

end Gathered

end Grammar

end Graft
