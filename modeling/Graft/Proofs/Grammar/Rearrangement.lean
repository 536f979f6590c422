import Graft.Proofs.Grammar.Renumbering

/-!
# Declarations in another order

The calls of a declaration may be made in another order, as long as those for each
name keep theirs. What is gathered for a name does not depend on the calls for
other names, so the same definitions are gathered, in another order. They are
resolved in both orders or in neither, into one grammar under two numberings.
-/

namespace Graft

namespace Declaration

/-- The name that a call declares something for. -/
def name? : Declaration → Option String
  | .rule name _ | .literals name _ | .repetition name _ => some name
  | .maxDepth _ | .repeatProbability _ => none

/-- The depth that a call sets. -/
def depth? : Declaration → Option Nat
  | .maxDepth depth => some depth
  | _ => none

/-- The probability that a call sets. -/
def probability? : Declaration → Option Float
  | .repeatProbability probability => some probability
  | _ => none

/-- A call for a name sets nothing about growth. Calls are for a name or for one of the two
settings, and never for both. -/
theorem sets_nothing {call : Declaration} {name : String} (named : call.name? = some name) :
    call.depth? = none ∧ call.probability? = none := by
  cases call with
  | rule _ _ | literals _ _ | repetition _ _ => exact ⟨rfl, rfl⟩
  | maxDepth _ | repeatProbability _ => cases named

end Declaration

namespace Grammar

/-- The calls for one name, in their order. -/
def callsFor (name : String) (calls : List Declaration) : List Declaration :=
  calls.filter fun call => call.name? == some name

/-- Calls in another order: each name has the same calls in the same order, and the settings
of growth that are made last are the same. -/
structure Rearranged (left right : List Declaration) : Prop where
  calls : ∀ name, callsFor name left = callsFor name right
  maxDepth : (left.filterMap Declaration.depth?).getLast? =
    (right.filterMap Declaration.depth?).getLast?
  repeatProbability : (left.filterMap Declaration.probability?).getLast? =
    (right.filterMap Declaration.probability?).getLast?

/-- The other way round it is a change of the order as well. -/
theorem Rearranged.symm {left right : List Declaration} (rearranged : Rearranged left right) :
    Rearranged right left where
  calls := fun name => (rearranged.calls name).symm
  maxDepth := rearranged.maxDepth.symm
  repeatProbability := rearranged.repeatProbability.symm

/-- Two calls for different names may change places. For each name the calls keep their order, as at
most one of the two is for it. -/
theorem rearranged_swap (before after : List Declaration) {first second : Declaration}
    {name other : String} (named : first.name? = some name) (otherNamed : second.name? = some other)
    (different : name ≠ other) :
    Rearranged (before ++ first :: second :: after) (before ++ second :: first :: after) where
  calls := by
    intro called
    simp only [callsFor, List.filter_append, List.filter_cons, named, otherNamed]
    by_cases here : name = called
    · subst here
      simp [different.symm]
    · simp [here]
  maxDepth := by
    simp [(Declaration.sets_nothing named).1, (Declaration.sets_nothing otherNamed).1]
  repeatProbability := by
    simp [(Declaration.sets_nothing named).2, (Declaration.sets_nothing otherNamed).2]

/-! ## What is gathered for a name -/

/-- Whether a definition is one of a name. -/
def Definition.declares (name : String) (definition : Definition) : Bool :=
  definition.name == name

namespace Draft

/-- What is declared for one name only. -/
def only (draft : Draft) (name : String) : Draft :=
  { definitions := draft.definitions.filter (Definition.declares name) }

/-- A row for a name is added among the definitions of the name. Whether the name has rows already
is seen among them alone. -/
theorem filter_addRow_self (name : String) (row : List NamedPart)
    (definitions : List Definition) :
    (addRow name row definitions).filter (Definition.declares name) =
      addRow name row (definitions.filter (Definition.declares name)) := by
  fun_induction addRow name row definitions with
  | case1 => simp [addRow, Definition.declares, Definition.name]
  | case2 present rows rest here => simp_all [addRow, Definition.declares, Definition.name]
  | case3 present rows rest elsewhere inductionHypothesis =>
    simpa [Definition.declares, Definition.name, elsewhere] using inductionHypothesis
  | case4 present element rest inductionHypothesis =>
    by_cases here : (Definition.repetition present element).declares name
    · rw [List.filter_cons_of_pos here, List.filter_cons_of_pos here, addRow, inductionHypothesis]
    · rw [List.filter_cons_of_neg here, List.filter_cons_of_neg here, inductionHypothesis]

/-- A row for another name is not added among the definitions of the name, and neither changes them
nor their order. -/
theorem filter_addRow_of_ne {name other : String} (different : other ≠ name)
    (row : List NamedPart) (definitions : List Definition) :
    (addRow other row definitions).filter (Definition.declares name) =
      definitions.filter (Definition.declares name) := by
  fun_induction addRow other row definitions with
  | case1 => simp [Definition.declares, Definition.name, different]
  | case2 present rows rest here => simp_all [Definition.declares, Definition.name]
  | case3 present rows rest elsewhere inductionHypothesis =>
    simp only [List.filter_cons, inductionHypothesis]
  | case4 present element rest inductionHypothesis =>
    simp only [List.filter_cons, inductionHypothesis]

/-- A call for the name is taken into account among what is declared for the name, as if nothing
else had been declared. -/
theorem only_declare_self {draft : Draft} {call : Declaration} {name : String}
    (named : call.name? = some name) :
    (draft.declare call).only name = (draft.only name).declare call := by
  cases call with
  | rule present row =>
    obtain rfl : present = name := by simpa [Declaration.name?] using named
    simp only [only, declare, filter_addRow_self]
  | literals present texts =>
    obtain rfl : present = name := by simpa [Declaration.name?] using named
    simp only [only, declare]
    clear named
    generalize draft.definitions = definitions
    induction texts generalizing definitions with
    | nil => rfl
    | cons text texts inductionHypothesis =>
      rw [List.foldl_cons, List.foldl_cons, inductionHypothesis, filter_addRow_self]
  | repetition present element =>
    obtain rfl : present = name := by simpa [Declaration.name?] using named
    simp [only, declare, Definition.declares, Definition.name]
  | maxDepth depth => cases named
  | repeatProbability probability => cases named

/-- Another call does not change what is declared for the name, be it a call for another name or one
that sets how grammars grow. -/
theorem only_declare_of_ne {draft : Draft} {call : Declaration} {name : String}
    (elsewhere : call.name? ≠ some name) : (draft.declare call).only name = draft.only name := by
  cases call with
  | rule present row =>
    have different : present ≠ name := by simpa [Declaration.name?] using elsewhere
    simp only [only, declare, filter_addRow_of_ne different]
  | literals present texts =>
    have different : present ≠ name := by simpa [Declaration.name?] using elsewhere
    simp only [only, declare]
    clear elsewhere
    generalize draft.definitions = definitions
    induction texts generalizing definitions with
    | nil => rfl
    | cons text texts inductionHypothesis =>
      rw [List.foldl_cons, inductionHypothesis, filter_addRow_of_ne different]
  | repetition present element =>
    have different : present ≠ name := by simpa [Declaration.name?] using elsewhere
    simp [only, declare, Definition.declares, Definition.name, different]
  | maxDepth depth => rfl
  | repeatProbability probability => rfl

/-- What is declared for a name comes from the calls for the name. The order of the other calls, and
where they stand between, is not seen. -/
theorem only_foldl_declare (name : String) (calls : List Declaration) (draft : Draft) :
    (calls.foldl declare draft).only name =
      (callsFor name calls).foldl declare (draft.only name) := by
  induction calls generalizing draft with
  | nil => rfl
  | cons call calls inductionHypothesis =>
    rw [List.foldl_cons, inductionHypothesis, callsFor, callsFor, List.filter_cons]
    by_cases named : call.name? = some name
    · simp only [named, beq_self_eq_true, ↓reduceIte, List.foldl_cons, only_declare_self named]
    · simp only [named, beq_iff_eq, ↓reduceIte, only_declare_of_ne named]

/-- The depth is the one that was set last, or the one from before if none was set. -/
theorem maxDepth_foldl_declare (calls : List Declaration) (draft : Draft) :
    (calls.foldl declare draft).maxDepth =
      (calls.filterMap Declaration.depth?).getLast?.getD draft.maxDepth := by
  induction calls generalizing draft with
  | nil => rfl
  | cons call calls inductionHypothesis =>
    rw [List.foldl_cons, inductionHypothesis]
    cases call <;> simp [declare, Declaration.depth?, List.getLast?_cons]

/-- The probability is the one that was set last, and whether it is accepted is tested only then. -/
theorem repeatProbability_foldl_declare (calls : List Declaration) (draft : Draft) :
    (calls.foldl declare draft).repeatProbability =
      (calls.filterMap Declaration.probability?).getLast?.getD draft.repeatProbability := by
  induction calls generalizing draft with
  | nil => rfl
  | cons call calls inductionHypothesis =>
    rw [List.foldl_cons, inductionHypothesis]
    cases call <;> simp [declare, Declaration.probability?, List.getLast?_cons]

end Draft

/-- Definitions that are the same for every name are the same up to their order. Each definition is
counted under its own name. -/
theorem perm_of_filter_name {left right : List Definition}
    (same : ∀ name, left.filter (Definition.declares name) =
      right.filter (Definition.declares name)) : left.Perm right := by
  refine List.perm_iff_count.mpr fun definition => ?_
  have own : definition.declares definition.name = true := beq_self_eq_true _
  calc left.count definition
      = (left.filter (Definition.declares definition.name)).count definition :=
        (List.count_filter own).symm
    _ = (right.filter (Definition.declares definition.name)).count definition := by
        rw [same definition.name]
    _ = right.count definition := List.count_filter own

/-- What the one order gathers the other gathers as well. The definitions may stand in another
order, and thereby the names be numbered otherwise. -/
theorem Rearranged.gathered {left right : List Declaration} (rearranged : Rearranged left right) :
    (left.foldl Draft.declare {}).definitions.Perm (right.foldl Draft.declare {}).definitions ∧
      (left.foldl Draft.declare {}).maxDepth = (right.foldl Draft.declare {}).maxDepth ∧
        (left.foldl Draft.declare {}).repeatProbability =
          (right.foldl Draft.declare {}).repeatProbability := by
  refine ⟨perm_of_filter_name fun name => ?_, ?_, ?_⟩
  · have gathered := Draft.only_foldl_declare name left {}
    rw [rearranged.calls name, ← Draft.only_foldl_declare name right {}] at gathered
    exact congrArg Draft.definitions gathered
  · simp only [Draft.maxDepth_foldl_declare, rearranged.maxDepth]
  · simp only [Draft.repeatProbability_foldl_declare, rearranged.repeatProbability]

/-! ## Definitions in another order -/

section Resolution

variable {names others : List String}

/-- A name that has a number among some names has one among others that it is one of. The numbers
stand for one name and need not be equal. -/
theorem resolveName_sameName (within : ∀ name ∈ names, name ∈ others) {owner referenced : String}
    {number : Nat} (resolved : resolveName names.zipIdx owner referenced = .ok number) :
    ∃ other, resolveName others.zipIdx owner referenced = .ok other ∧
      SameName names others number other := by
  unfold resolveName at resolved ⊢
  split at resolved
  · next found =>
    cases resolved
    have here : names[number]? = some referenced := getElem?_of_lookup_zipIdx found
    cases otherFound : others.zipIdx.lookup referenced with
    | none =>
      have present := within referenced (List.mem_of_getElem? here)
      exact absurd present (lookup_zipIdx_eq_none_iff.mp otherFound)
    | some other => exact ⟨other, rfl, referenced, here, getElem?_of_lookup_zipIdx otherFound⟩
  · cases resolved

/-- A traversal succeeds where another one does, with what corresponds, if each step does. Nothing
is said of where a traversal fails. -/
theorem exists_mapM {ε α β γ : Type} {f : α → Except ε β} {g : α → Except ε γ}
    {related : β → γ → Prop}
    (each : ∀ input output, f input = .ok output →
      ∃ other, g input = .ok other ∧ related output other)
    {inputs : List α} {outputs : List β} (mapped : inputs.mapM f = .ok outputs) :
    ∃ results, inputs.mapM g = .ok results ∧ List.Forall₂ related outputs results := by
  simp only [mapM_eq_ok_iff] at mapped ⊢
  induction mapped with
  | nil => exact ⟨[], .nil, .nil⟩
  | cons first _ inductionHypothesis =>
    obtain ⟨result, also, together⟩ := each _ _ first
    obtain ⟨results, further, others⟩ := inductionHypothesis
    exact ⟨result :: results, .cons also further, .cons together others⟩

/-- A part that is resolved among some names is resolved alike among others, a literal to itself and
a reference to the number of the same name. -/
theorem resolvePart_matches (within : ∀ name ∈ names, name ∈ others) {owner : String}
    {part : NamedPart} {resolved : Part}
    (done : resolvePart names.zipIdx owner part = .ok resolved) :
    ∃ other, resolvePart others.zipIdx owner part = .ok other ∧
      resolved.Matches (SameName names others) other := by
  cases part with
  | literal octets =>
    cases done
    exact ⟨_, rfl, .literal octets⟩
  | symbol referenced =>
    simp only [resolvePart, bind, Except.bind] at done ⊢
    split at done
    · cases done
    · next number found =>
      cases done
      obtain ⟨other, otherFound, numbers⟩ := resolveName_sameName within found
      rw [otherFound]
      exact ⟨_, rfl, .symbol numbers⟩

/-- A definition that is resolved among some names is resolved alike among others, if all the names
are among them. Its numbers may differ, but they stand for the same names. -/
theorem resolveDefinition_matches (within : ∀ name ∈ names, name ∈ others)
    {definition : Definition} {production : Production}
    (done : resolveDefinition names.zipIdx definition = .ok production) :
    ∃ twin, resolveDefinition others.zipIdx definition = .ok twin ∧
      production.Matches (SameName names others) twin := by
  cases definition with
  | alternatives owner rows =>
    simp only [resolveDefinition, bind, Except.bind] at done ⊢
    split at done
    · cases done
    · next resolved found =>
      cases done
      have rowMatches (row : List NamedPart) (parts : List Part) :
          row.mapM (resolvePart names.zipIdx owner) = .ok parts → ∃ twins,
            row.mapM (resolvePart others.zipIdx owner) = .ok twins ∧
              List.Forall₂ (Part.Matches (SameName names others)) parts twins :=
        exists_mapM fun _ _ => resolvePart_matches within
      obtain ⟨twins, otherFound, each⟩ := exists_mapM rowMatches found
      rw [otherFound]
      exact ⟨_, rfl, .alternatives each⟩
  | repetition owner element =>
    simp only [resolveDefinition, bind, Except.bind] at done ⊢
    split at done
    · cases done
    · next number found =>
      cases done
      obtain ⟨other, otherFound, numbers⟩ := resolveName_sameName within found
      rw [otherFound]
      exact ⟨_, rfl, .repetition numbers⟩

/-- A number that has a symbol shares it with the numbers of the same name, if the productions
of one name are alike: the chain of repetitions is the same. -/
theorem symbolAt?_of_sameName {productions twins : List Production}
    (alike : ∀ number other, SameName names others number other →
      ∃ production twin, productions[number]? = some production ∧ twins[other]? = some twin ∧
        production.Matches (SameName names others) twin)
    {steps number other : Nat} {symbol : Symbol} (numbers : SameName names others number other)
    (found : symbolAt? names productions steps number = some symbol) :
    ∃ twin, symbolAt? others twins steps other = some twin := by
  induction steps generalizing number other symbol with
  | zero => cases found
  | succ steps inductionHypothesis =>
    obtain ⟨production, twin, produced, otherProduced, expandAlike⟩ := alike number other numbers
    obtain ⟨name, named, otherNamed⟩ := numbers
    simp only [symbolAt?, named, produced, otherNamed, otherProduced] at found ⊢
    cases expandAlike with
    | alternatives each => exact ⟨_, rfl⟩
    | repetition elements =>
      obtain ⟨repeated, chain, -⟩ := Option.map_eq_some_iff.mp found
      obtain ⟨otherRepeated, otherChain⟩ := inductionHypothesis elements chain
      refine ⟨.repetition other name otherRepeated, ?_⟩
      simp only [otherChain, Option.map_some]

end Resolution

section Orders

variable {left right : Draft}

/-- The definitions of one name are the same in both orders, as each name has only one. Which one it
is does not depend on the number. -/
theorem getElem?_of_sameName (order : left.definitions.Perm right.definitions)
    (distinct : left.names.Nodup) {number other : Nat}
    (numbers : SameName left.names right.names number other) :
    ∃ definition, left.definitions[number]? = some definition ∧
      right.definitions[other]? = some definition := by
  obtain ⟨name, named, otherNamed⟩ := numbers
  simp only [Draft.names, List.getElem?_map, Option.map_eq_some_iff] at named otherNamed
  obtain ⟨definition, placed, rfl⟩ := named
  obtain ⟨twin, otherPlaced, sameName⟩ := otherNamed
  have present := List.mem_of_getElem? placed
  have otherPresent := order.mem_iff.mpr (List.mem_of_getElem? otherPlaced)
  obtain rfl : twin = definition :=
    List.inj_on_of_nodup_map distinct otherPresent present sameName
  exact ⟨twin, placed, otherPlaced⟩

/-- The names of a draft are the same in both orders, as each definition bears one. -/
theorem names_perm (order : left.definitions.Perm right.definitions) :
    left.names.Perm right.names :=
  order.map Definition.name

/-- The definitions of one name are resolved alike in both orders. No name has two definitions, so
that it is the same one in both. -/
theorem productions_match (order : left.definitions.Perm right.definitions)
    (distinct : left.names.Nodup) {productions twins : List Production}
    (produced : List.Forall₂
      (fun definition production =>
        resolveDefinition left.names.zipIdx definition = .ok production)
      left.definitions productions)
    (otherProduced : List.Forall₂
      (fun definition production =>
        resolveDefinition right.names.zipIdx definition = .ok production)
      right.definitions twins)
    (number other : Nat) (numbers : SameName left.names right.names number other) :
    ∃ production twin, productions[number]? = some production ∧ twins[other]? = some twin ∧
      production.Matches (SameName left.names right.names) twin := by
  obtain ⟨definition, placed, otherPlaced⟩ := getElem?_of_sameName order distinct numbers
  obtain ⟨production, stands, resolved, -⟩ := forall₂_at produced placed
  obtain ⟨twin, otherStands, otherResolved, -⟩ := forall₂_at otherProduced otherPlaced
  obtain ⟨known, same, expandAlike⟩ :=
    resolveDefinition_matches (fun name => (names_perm order).mem_iff.mp) resolved
  cases same.symm.trans otherResolved
  exact ⟨production, twin, stands, otherStands, expandAlike⟩

/-- What is resolved in one order is resolved in the other. The names differ in both, every
reference has a number, and the chains of repetitions are the same. -/
theorem exists_ofDraft (order : left.definitions.Perm right.definitions)
    (probability : left.repeatProbability = right.repeatProbability) {grammar : Grammar}
    (built : ofDraft left = .ok grammar) : ∃ other, ofDraft right = .ok other := by
  obtain ⟨probable, resolves, -, -⟩ := ofDraft_eq_ok_iff.mp built
  obtain ⟨productions, produced⟩ : ∃ productions, List.Forall₂
      (fun definition production =>
        resolveDefinition right.names.zipIdx definition = .ok production)
      right.definitions productions := by
    refine exists_forall₂ fun definition member => ?_
    obtain ⟨place, placed⟩ := List.getElem?_of_mem (order.mem_iff.mpr member)
    obtain ⟨production, -, resolved, -⟩ := forall₂_at resolves.productions placed
    obtain ⟨twin, otherResolved, -⟩ :=
      resolveDefinition_matches (fun name => (names_perm order).mem_iff.mp) resolved
    exact ⟨twin, otherResolved⟩
  obtain ⟨symbols, numbered⟩ : ∃ symbols, List.Forall₂
      (fun id symbol => symbolAt? right.names productions right.names.length id = some symbol)
      (List.range right.names.length) symbols := by
    refine exists_forall₂ fun other member => ?_
    have inside : other < right.names.length := List.mem_range.mp member
    have otherNamed : right.names[other]? = some right.names[other] :=
      List.getElem?_eq_getElem inside
    obtain ⟨number, named⟩ := List.getElem?_of_mem
      ((names_perm order).mem_iff.mpr (List.mem_of_getElem? otherNamed))
    have placed : (List.range left.names.length)[number]? = some number := by
      rw [List.getElem?_range (List.getElem?_eq_some_iff.mp named).1]
    obtain ⟨symbol, -, found, -⟩ := forall₂_at resolves.symbols placed
    rw [(names_perm order).length_eq] at found
    exact symbolAt?_of_sameName
      (productions_match order resolves.distinct resolves.productions produced)
      ⟨_, named, otherNamed⟩ found
  refine ⟨⟨symbols, productions, right.names.zipIdx, right.maxDepth, right.repeatProbability⟩,
    ofDraft_eq_ok_iff.mpr ⟨probability ▸ probable, ⟨?_, produced, rfl, numbered⟩, rfl, rfl⟩⟩
  exact (names_perm order).nodup_iff.mp resolves.distinct

/-- Both orders are resolved into one grammar under two numberings. Productions of one name match,
and symbols of one name repeat what bears one name again. -/
theorem renumbered_of_ofDraft (order : left.definitions.Perm right.definitions)
    (maxDepth : left.maxDepth = right.maxDepth)
    (probability : left.repeatProbability = right.repeatProbability) {grammar other : Grammar}
    (built : ofDraft left = .ok grammar) (otherBuilt : ofDraft right = .ok other) :
    grammar.Renumbered other := by
  obtain ⟨-, resolves, depthKept, probabilityKept⟩ := ofDraft_eq_ok_iff.mp built
  obtain ⟨-, otherResolves, otherDepthKept, otherProbabilityKept⟩ :=
    ofDraft_eq_ok_iff.mp otherBuilt
  have names : grammar.names = left.names := resolves.map_name
  have otherNames : other.names = right.names := otherResolves.map_name
  refine ⟨resolves.wellFormed, otherResolves.wellFormed, ?_, ?_, ?_, ?_⟩
  · intro name
    rw [names, otherNames]
    exact (names_perm order).mem_iff
  · intro symbol twin twins
    have numbers := twins.sameName resolves.wellFormed otherResolves.wellFormed
    rw [names, otherNames] at numbers ⊢
    exact productions_match order resolves.distinct resolves.productions
      otherResolves.productions _ _ numbers
  · rw [depthKept, otherDepthKept, maxDepth]
  · rw [probabilityKept, otherProbabilityKept, probability]

end Orders

/-- What is declared in one order is declared in the other as well, as the same grammar under
another numbering. -/
theorem Rearranged.ofDeclarations {left right : List Declaration}
    (rearranged : Rearranged left right) {grammar : Grammar}
    (built : ofDeclarations left = .ok grammar) :
    ∃ other, Grammar.ofDeclarations right = .ok other ∧ grammar.Renumbered other := by
  obtain ⟨order, maxDepth, probability⟩ := rearranged.gathered
  obtain ⟨other, otherBuilt⟩ := exists_ofDraft order probability built
  exact ⟨other, otherBuilt, renumbered_of_ofDraft order maxDepth probability built otherBuilt⟩

end Grammar

end Graft
