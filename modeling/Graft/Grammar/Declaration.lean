import Graft.Decimal.Positional
import Graft.Grammar.Basic

/-!
# Declaring a grammar

A grammar is declared by a list of calls: rows of alternatives for a name, a
repetition of another name, and the two settings of growth. Rows for one name
gather in the order they are given, wherever they stand among other calls. The
table numbers names by their first declaration.

A declared grammar is refused for the first of these reasons that holds: a
probability outside `[0, 1)`; a name declared by two repetitions, or by a
repetition and by rows; a reference to a name that is not declared; a chain of
repetitions that never reaches rows.
-/

namespace Graft

/-- One part of a declared row, its symbol given by name. -/
inductive NamedPart where
  | literal (octets : Bytes)
  | symbol (name : String)
deriving DecidableEq, Repr

/-- One call of a declaration. -/
inductive Declaration where
  /-- One more row for a name. -/
  | rule (name : String) (row : List NamedPart)
  /-- One more row for a name per literal. -/
  | literals (name : String) (texts : List Bytes)
  /-- A name that repeats another one or more times. -/
  | repetition (name element : String)
  | maxDepth (depth : Nat)
  | repeatProbability (probability : Float)

/-- Why a declared grammar is refused. -/
inductive RuleError where
  | repeatProbability (probability : Float)
  | duplicate (symbol : String)
  | undefined (owner referenced : String)
  | endlessRepetition (symbol : String)

namespace RuleError

/-- The symbol a refusal speaks of; a star stands for the whole grammar. -/
def symbol : RuleError → String
  | .repeatProbability _ => "*"
  | .duplicate symbol => symbol
  | .undefined owner _ => owner
  | .endlessRepetition symbol => symbol

/-- What is wrong with that symbol. -/
def reason : RuleError → String
  | .repeatProbability probability =>
    "repeat probability " ++ Decimal.text probability ++ " must be in [0, 1)"
  | .duplicate _ => "defined both as a repeat and as a rule, or repeated twice"
  | .undefined _ referenced => "references undefined symbol " ++ Symbol.displayed referenced
  | .endlessRepetition _ => "repeat element cycle"

/-- The message of a refusal. -/
def message (error : RuleError) : String :=
  "Invalid rule for " ++ Symbol.displayed error.symbol ++ ": " ++ error.reason

end RuleError

namespace Grammar

/-- What is declared for one name. -/
inductive Definition where
  | alternatives (name : String) (rows : List (List NamedPart))
  | repetition (name element : String)
deriving DecidableEq, Repr

/-- The declared name. -/
def Definition.name : Definition → String
  | .alternatives name _ => name
  | .repetition name _ => name

/-- The calls made so far, gathered by name. -/
structure Draft where
  definitions : List Definition := []
  maxDepth : Nat := 100
  repeatProbability : Float := 0.75

namespace Draft

/-- Add a row to the alternatives of a name, or new alternatives at the end. A
    repetition of the same name is left to be refused later. -/
def addRow (name : String) (row : List NamedPart) : List Definition → List Definition
  | [] => [.alternatives name [row]]
  | .alternatives present rows :: rest =>
    if present == name then .alternatives present (rows ++ [row]) :: rest
    else .alternatives present rows :: addRow name row rest
  | .repetition present element :: rest => .repetition present element :: addRow name row rest

/-- Take one call into account. -/
def declare (draft : Draft) : Declaration → Draft
  | .rule name row => { draft with definitions := addRow name row draft.definitions }
  | .literals name texts =>
    { draft with
      definitions := texts.foldl
        (fun definitions text => addRow name [.literal text] definitions) draft.definitions }
  | .repetition name element =>
    { draft with definitions := draft.definitions ++ [.repetition name element] }
  | .maxDepth depth => { draft with maxDepth := depth }
  | .repeatProbability probability => { draft with repeatProbability := probability }

/-- The declared names, each at the number its symbol gets. -/
def names (draft : Draft) : List String :=
  draft.definitions.map Definition.name

end Draft

/-- Enter names with their numbers. A name that is in the table already is declared
    a second time. -/
def enterNames (table : NameTable) : List (String × Nat) → Except RuleError NameTable
  | [] => .ok table
  | (name, id) :: rest =>
    match table.lookup name with
    | some _ => .error (.duplicate name)
    | none => enterNames (table ++ [(name, id)]) rest

/-- The number of a name that is referenced on behalf of another. -/
def resolveName (table : NameTable) (owner referenced : String) : Except RuleError Nat :=
  match table.lookup referenced with
  | some id => .ok id
  | none => .error (.undefined owner referenced)

/-- A declared part with its reference resolved. -/
def resolvePart (table : NameTable) (owner : String) : NamedPart → Except RuleError Part
  | .literal octets => .ok (.literal octets)
  | .symbol referenced => do return .symbol (← resolveName table owner referenced)

/-- The production of a definition. -/
def resolveDefinition (table : NameTable) : Definition → Except RuleError Production
  | .alternatives owner rows => do
    return .alternatives (← rows.mapM fun row => row.mapM (resolvePart table owner))
  | .repetition owner element => do
    return .repetition (← resolveName table owner element)

/-- The symbol of a number, with the elements of repetitions resolved along the
    chain they form. A chain that does not end within the given number of steps
    has no symbol. -/
def symbolAt? (names : List String) (productions : List Production) :
    (steps : Nat) → (id : Nat) → Option Symbol
  | 0, _ => none
  | steps + 1, id =>
    match names[id]?, productions[id]? with
    | some name, some (.alternatives _) => some (.plain id name)
    | some name, some (.repetition element) =>
      (symbolAt? names productions steps element).map (.repetition id name)
    | _, _ => none

/-- Resolve a draft. A chain of repetitions without a cycle visits no name twice,
    so as many steps as there are names reach its end. -/
def ofDraft (draft : Draft) : Except RuleError Grammar := do
  unless 0 ≤ draft.repeatProbability ∧ draft.repeatProbability < 1 do
    throw (.repeatProbability draft.repeatProbability)
  let names := draft.names
  let byName ← enterNames [] names.zipIdx
  let productions ← draft.definitions.mapM (resolveDefinition byName)
  let symbols ← (List.range names.length).mapM fun id =>
    match symbolAt? names productions names.length id with
    | some symbol => pure symbol
    | none => throw (.endlessRepetition (names.getD id ""))
  return {
    symbols
    productions
    byName
    maxDepth := draft.maxDepth
    repeatProbability := draft.repeatProbability }

/-- The grammar declared by a list of calls. -/
def ofDeclarations (declarations : List Declaration) : Except RuleError Grammar :=
  ofDraft (declarations.foldl Draft.declare {})

end Grammar

end Graft
