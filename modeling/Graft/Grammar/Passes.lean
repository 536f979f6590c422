import Graft.Grammar.Declaration

/-!
# Building a table in passes

A repetition carries its element, so the symbol of the element has to be made first.
What has alternatives gets its symbol at once. The repetitions wait in the order of
their declaration and are gone through in passes: whichever finds the symbol of its
element gets its own, also where the element got its symbol earlier in the same
pass. A pass after which all of them still wait has met a chain of repetitions that
never reaches rows.

Nothing else is done differently from the resolution that follows each chain by
itself, and both come to the same.
-/

namespace Graft.Grammar

/-- A repetition that waits for its element, both given by number. -/
structure Waiting where
  id : Nat
  element : Nat
deriving DecidableEq, Repr

/-- The symbols made so far, each in the slot of its number, and what still waits. -/
structure Pass where
  slots : List (Option Symbol)
  waiting : List Waiting

/-- The slots before the first pass. Only what has alternatives has its symbol. -/
def plainSlots (names : List String) (productions : List Production) : List (Option Symbol) :=
  productions.mapIdx fun id production =>
    match production with
    | .alternatives _ => some (.plain id (names.getD id ""))
    | .repetition _ => none

/-- What waits before the first pass, in the order of the numbers. -/
def repetitions (productions : List Production) : List Waiting :=
  productions.zipIdx.filterMap fun (production, id) =>
    match production with
    | .alternatives _ => none
    | .repetition element => some ⟨id, element⟩

/-- Go once through what waits. A symbol is there for those that come after it. -/
def settle (names : List String) (slots : List (Option Symbol)) : List Waiting → Pass
  | [] => { slots, waiting := [] }
  | repetition :: others =>
    match slots.getD repetition.element none with
    | some element =>
      let symbol := .repetition repetition.id (names.getD repetition.id "") element
      settle names (slots.set repetition.id (some symbol)) others
    | none =>
      let pass := settle names slots others
      { pass with waiting := repetition :: pass.waiting }

/-- No pass makes anything wait anew. -/
theorem length_waiting_settle_le (names : List String) (slots : List (Option Symbol))
    (waiting : List Waiting) : (settle names slots waiting).waiting.length ≤ waiting.length := by
  fun_induction settle names slots waiting with
  | case1 => exact Nat.le_refl _
  | case2 slots repetition others element found symbol inductionHypothesis =>
    exact Nat.le_succ_of_le inductionHypothesis
  | case3 slots repetition others absent pass inductionHypothesis =>
    exact Nat.succ_le_succ inductionHypothesis

/-- Go through what waits until nothing does, or until a pass has been in vain. Then it is
    what waits first that is reported. -/
def settleAll (names : List String) (slots : List (Option Symbol)) (waiting : List Waiting) :
    Except RuleError (List (Option Symbol)) :=
  match waiting with
  | [] => .ok slots
  | first :: others =>
    let pass := settle names slots (first :: others)
    if pass.waiting.length = (first :: others).length then
      .error (.endlessRepetition (names.getD first.id ""))
    else settleAll names pass.slots pass.waiting
termination_by waiting.length
decreasing_by
  exact Nat.lt_of_le_of_ne (length_waiting_settle_le names slots (first :: others)) ‹_›

/-- Resolve a draft, its symbols in passes. -/
def buildDraft (draft : Draft) : Except RuleError Grammar := do
  unless 0 ≤ draft.repeatProbability ∧ draft.repeatProbability < 1 do
    throw (.repeatProbability draft.repeatProbability)
  let names := draft.names
  let byName ← enterNames [] names.zipIdx
  let productions ← draft.definitions.mapM (resolveDefinition byName)
  let slots ← settleAll names (plainSlots names productions) (repetitions productions)
  return {
    symbols := slots.filterMap id
    productions
    byName
    maxDepth := draft.maxDepth
    repeatProbability := draft.repeatProbability }

/-- The grammar that a list of calls builds. -/
def build (declarations : List Declaration) : Except RuleError Grammar :=
  buildDraft (declarations.foldl Draft.declare {})

end Graft.Grammar
