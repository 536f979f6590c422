import Mathlib.Data.Fintype.Pigeonhole
import Mathlib.Data.Set.Finite.Basic
import Mathlib.Logic.Relation
import Graft.Proofs.Grammar.Gathering
import Graft.Proofs.Grammar.Passes
import Graft.Proofs.Grammar.Rearrangement

/-!
# Which declarations are accepted

A declaration is accepted exactly if its probability is one to go on with, no name is
declared in two ways, every name that is referred to is declared, and whoever follows
the elements of a repetition comes to rows. It is refused for the first of these that
fails. Passes that are blocked show the last: what is blocked goes on to what is
blocked, and among finitely many names that comes round to where it has been.
-/

namespace Graft.Grammar

/-! ## What is asked of the calls -/

/-- The probability of going on that is set last. -/
def lastProbability (calls : List Declaration) : Float :=
  (calls.filterMap Declaration.probability?).getLast?.getD 0.75

/-- A number in `[0, 1)`. -/
def Probable (probability : Float) : Prop :=
  0 ≤ probability ∧ probability < 1

/-- The name is declared by two repetitions, or by a repetition and by rows. -/
def Clashes (calls : List Declaration) (name : String) : Prop :=
  2 ≤ (elementsOf calls name).length ∨ elementsOf calls name ≠ [] ∧ rowsOf calls name ≠ []

/-- The name repeats the element. -/
def Follows (calls : List Declaration) (name element : String) : Prop :=
  element ∈ elementsOf calls name

/-- The name refers to another, in a part of a row or as its element. -/
def Refers (calls : List Declaration) (owner referenced : String) : Prop :=
  (∃ row ∈ rowsOf calls owner, .symbol referenced ∈ row) ∨ Follows calls owner referenced

/-- From element to element the name comes to one that has rows and repeats nothing. -/
def Stops (calls : List Declaration) (name : String) : Prop :=
  ∃ last, Relation.ReflTransGen (Follows calls) name last ∧
    elementsOf calls last = [] ∧ rowsOf calls last ≠ []

/-- From element to element the name comes to one that comes back to itself. -/
def Circles (calls : List Declaration) (name : String) : Prop :=
  ∃ turn, Relation.ReflTransGen (Follows calls) name turn ∧
    Relation.TransGen (Follows calls) turn turn

/-- There is nothing against a declaration. -/
structure WellDeclared (calls : List Declaration) : Prop where
  probable : Probable (lastProbability calls)
  unclashing : ∀ name, ¬ Clashes calls name
  defined : ∀ owner referenced, Refers calls owner referenced → referenced ∈ declaredNames calls
  stopping : ∀ name, elementsOf calls name ≠ [] → Stops calls name

/-- What there is against a declaration, and that there is nothing against it up to there. -/
inductive RefusedFor (calls : List Declaration) : RuleError → Prop where
  | probability (improbable : ¬ Probable (lastProbability calls)) :
    RefusedFor calls (.repeatProbability (lastProbability calls))
  | clash (name : String) (probable : Probable (lastProbability calls))
    (clashes : Clashes calls name) : RefusedFor calls (.duplicate name)
  | reference (owner referenced : String) (probable : Probable (lastProbability calls))
    (unclashing : ∀ name, ¬ Clashes calls name) (refers : Refers calls owner referenced)
    (undefined : referenced ∉ declaredNames calls) :
    RefusedFor calls (.undefined owner referenced)
  | cycle (name : String) (probable : Probable (lastProbability calls))
    (unclashing : ∀ name, ¬ Clashes calls name)
    (defined : ∀ owner referenced, Refers calls owner referenced →
      referenced ∈ declaredNames calls)
    (repeats : elementsOf calls name ≠ []) (circles : Circles calls name) :
    RefusedFor calls (.endlessRepetition name)

/-! ## References -/

/-- The definition refers to the name. -/
def Definition.RefersTo (referenced : String) : Definition → Prop
  | .alternatives _ rows => ∃ row ∈ rows, .symbol referenced ∈ row
  | .repetition _ element => element = referenced

section References

variable {names : List String} {owner referenced : String} {cause : RuleError}

/-- A name is refused where it is not among the names. The error gives the name that was looked for
and whose definition it stands in, so that both can be found in the calls. -/
theorem resolveName_eq_error (refused : resolveName names.zipIdx owner referenced = .error cause) :
    referenced ∉ names ∧ cause = .undefined owner referenced := by
  unfold resolveName at refused
  split at refused
  · cases refused
  · next absent =>
    cases refused
    exact ⟨lookup_zipIdx_eq_none_iff.mp absent, rfl⟩

/-- A part is refused for the name that it refers to. A literal refers to none and is never
refused. -/
theorem resolvePart_eq_error {part : NamedPart}
    (refused : resolvePart names.zipIdx owner part = .error cause) :
    ∃ referenced, part = .symbol referenced ∧ referenced ∉ names ∧
      cause = .undefined owner referenced := by
  cases part with
  | literal octets => cases refused
  | symbol referenced =>
    cases named : resolveName names.zipIdx owner referenced with
    | ok number =>
      simp only [resolvePart, named, bind, Except.bind] at refused
      cases refused
    | error other =>
      simp only [resolvePart, named, bind, Except.bind] at refused
      cases refused
      exact ⟨referenced, rfl, resolveName_eq_error named⟩

/-- A definition is refused for a name that it refers to. The error names the definition as well,
whether the name stands in a row or is the element of a repetition. -/
theorem resolveDefinition_eq_error {definition : Definition}
    (refused : resolveDefinition names.zipIdx definition = .error cause) :
    ∃ referenced, definition.RefersTo referenced ∧ referenced ∉ names ∧
      cause = .undefined definition.name referenced := by
  cases definition with
  | alternatives owner rows =>
    cases mapped : rows.mapM fun row => row.mapM (resolvePart names.zipIdx owner) with
    | ok resolved =>
      simp only [resolveDefinition, mapped, bind, Except.bind] at refused
      cases refused
    | error other =>
      simp only [resolveDefinition, mapped, bind, Except.bind] at refused
      cases refused
      obtain ⟨row, rowMember, rowRefused⟩ := exists_of_mapM_eq_error mapped
      obtain ⟨part, partMember, partRefused⟩ := exists_of_mapM_eq_error rowRefused
      obtain ⟨referenced, rfl, absent, same⟩ := resolvePart_eq_error partRefused
      exact ⟨referenced, ⟨row, rowMember, partMember⟩, absent, same⟩
  | repetition owner element =>
    cases named : resolveName names.zipIdx owner element with
    | ok number =>
      simp only [resolveDefinition, named, bind, Except.bind] at refused
      cases refused
    | error other =>
      simp only [resolveDefinition, named, bind, Except.bind] at refused
      cases refused
      exact ⟨element, rfl, resolveName_eq_error named⟩

/-- What a resolved definition refers to is among the names, since each of its parts and its element
is the number of a name. -/
theorem Resolution.mem_names {definition : Definition} {production : Production}
    (resolution : Resolution names definition production)
    (refers : definition.RefersTo referenced) : referenced ∈ names := by
  cases resolution with
  | alternatives parts =>
    obtain ⟨row, rowMember, partMember⟩ := refers
    obtain ⟨rowPlace, rowPlaced⟩ := List.getElem?_of_mem rowMember
    obtain ⟨resolvedRow, -, related, -⟩ := forall₂_at parts rowPlaced
    obtain ⟨place, placed⟩ := List.getElem?_of_mem partMember
    obtain ⟨part, -, resolved, -⟩ := forall₂_at related placed
    cases resolved with
    | symbol named => exact List.mem_of_getElem? named
  | repetition named =>
    obtain rfl := refers
    exact List.mem_of_getElem? named

/-- A name refers to what the definitions of the name refer to. What is said of the calls can thus
be said of the draft, where the calls of a name are one definition. -/
theorem refers_iff {calls : List Declaration} :
    Refers calls owner referenced ↔
      ∃ definition ∈ (gathered calls).definitions,
        definition.name = owner ∧ definition.RefersTo referenced := by
  constructor
  · rintro (⟨row, given, part⟩ | follows)
    · have some : rowsOf calls owner ≠ [] := List.ne_nil_of_mem given
      exact ⟨_, mem_definitions_alternatives_iff.mpr ⟨rfl, some⟩, rfl, row, given, part⟩
    · exact ⟨_, mem_definitions_repetition_iff.mpr follows, rfl, rfl⟩
  · rintro ⟨definition, member, rfl, refers⟩
    cases definition with
    | alternatives owner rows =>
      obtain ⟨rfl, -⟩ := mem_definitions_alternatives_iff.mp member
      exact .inl refers
    | repetition owner element =>
      obtain rfl : element = referenced := refers
      exact .inr (mem_definitions_repetition_iff.mp member)

end References

/-! ## Names that are declared twice -/

/-- A name that is not entered is there twice, or has been in the table before. The induction is on
the names still to be entered, with the table as the names before them. -/
theorem two_le_count_of_enterNames {table : NameTable} {entries : List (String × Nat)}
    {cause : RuleError} (refused : enterNames table entries = .error cause) :
    ∃ name ∈ entries.map Prod.fst, cause = .duplicate name ∧
      (name ∈ table.map Prod.fst ∨ 2 ≤ (entries.map Prod.fst).count name) := by
  induction entries generalizing table with
  | nil => cases refused
  | cons entry rest inductionHypothesis =>
    obtain ⟨first, id⟩ := entry
    rw [enterNames] at refused
    split at refused
    · next number known =>
      cases refused
      obtain ⟨before, behind, split, -⟩ := List.lookup_eq_some_iff.mp known
      exact ⟨first, List.mem_cons_self, rfl, .inl (by simp [split])⟩
    · obtain ⟨name, member, rfl, earlier | twice⟩ := inductionHypothesis refused
      · refine ⟨name, List.mem_cons_of_mem _ member, rfl, ?_⟩
        rw [List.map_append, List.mem_append] at earlier
        rcases earlier with before | same
        · exact .inl before
        · obtain rfl : name = first := List.mem_singleton.mp same
          right
          have once := List.count_pos_iff.mpr member
          rw [List.map_cons, List.count_cons_self]
          omega
      · refine ⟨name, List.mem_cons_of_mem _ member, rfl, .inr ?_⟩
        exact twice.trans (List.count_le_count_cons ..)

/-- A name clashes exactly if it would be numbered twice: each of its repetitions and all its
alternatives together are one definition each. -/
theorem clashes_iff {calls : List Declaration} {name : String} :
    Clashes calls name ↔ 2 ≤ (gathered calls).names.count name := by
  rw [count_names, Clashes]
  by_cases given : rowsOf calls name = []
  · simp [given]
  · rw [if_neg given, ← List.length_pos_iff]
    constructor
    · rintro (twice | ⟨once, -⟩) <;> omega
    · intro twice
      exact .inr ⟨by omega, given⟩

/-- No name is numbered twice exactly if none clashes, which is why entering the names decides
whether there is a clash. -/
theorem nodup_names_iff {calls : List Declaration} :
    (gathered calls).names.Nodup ↔ ∀ name, ¬ Clashes calls name := by
  rw [List.nodup_iff_count_le_one]
  refine forall_congr' fun name => ?_
  rw [clashes_iff]
  omega

section Unclashing

variable {calls : List Declaration} {name : String} (unclashing : ¬ Clashes calls name)
include unclashing

/-- A name that does not clash repeats nothing if it has rows, as it would otherwise be both an
alternative and a repetition. -/
theorem elementsOf_eq_nil (given : rowsOf calls name ≠ []) : elementsOf calls name = [] := by
  by_contra repeats
  exact unclashing (.inr ⟨repeats, given⟩)

/-- A name that does not clash has no rows if it repeats something. This is the same clash seen from
the repetition. -/
theorem rowsOf_eq_nil (repeats : elementsOf calls name ≠ []) : rowsOf calls name = [] := by
  by_contra given
  exact unclashing (.inr ⟨repeats, given⟩)

/-- A name that does not clash repeats one element at most. What it repeats is then told by any one
of its elements. -/
theorem elementsOf_eq_singleton {element : String} (follows : Follows calls name element) :
    elementsOf calls name = [element] := by
  have few : ¬ 2 ≤ (elementsOf calls name).length := fun twice => unclashing (.inl twice)
  have some := List.length_pos_of_mem follows
  obtain ⟨only, same⟩ := List.length_eq_one_iff.mp (by omega : (elementsOf calls name).length = 1)
  rw [Follows, same, List.mem_singleton] at follows
  rw [same, follows]

end Unclashing

/-! ## Chains and cycles -/

/-- Whoever can always go on within finitely many places comes round to one of them, for a walk
without an end cannot show a new place at each step. -/
theorem exists_cycle {α : Type} {follows : α → α → Prop} {places : Set α} (finite : places.Finite)
    (onward : ∀ place ∈ places, ∃ next ∈ places, follows place next) {start : α}
    (within : start ∈ places) :
    ∃ turn, Relation.ReflTransGen follows start turn ∧ Relation.TransGen follows turn turn := by
  have : Finite places := finite
  choose next inside leads using onward
  let walk : Nat → places := fun steps =>
    (fun place : places => ⟨next place.1 place.2, inside place.1 place.2⟩)^[steps] ⟨start, within⟩
  have step (steps : Nat) : follows (walk steps).1 (walk (steps + 1)).1 := by
    have unfolded : walk (steps + 1) =
        ⟨next (walk steps).1 (walk steps).2, inside _ (walk steps).2⟩ :=
      Function.iterate_succ_apply' _ _ _
    rw [unfolded]
    exact leads _ _
  have reach (from' further : Nat) :
      Relation.ReflTransGen follows (walk from').1 (walk (from' + further)).1 := by
    induction further with
    | zero => exact .refl
    | succ further inductionHypothesis => exact inductionHypothesis.tail (step _)
  have round {first second : Nat} (less : first < second) (same : walk first = walk second) :
      ∃ turn, Relation.ReflTransGen follows start turn ∧
        Relation.TransGen follows turn turn := by
    refine ⟨(walk first).1, ?_, ?_⟩
    · have along := reach 0 first
      rwa [Nat.zero_add] at along
    · have along := reach (first + 1) (second - (first + 1))
      rw [Nat.add_sub_cancel' less, ← same] at along
      exact .head' (step first) along
  obtain ⟨first, second, different, same⟩ := Finite.exists_ne_map_eq_of_infinite walk
  rcases Nat.lt_or_gt_of_ne different with less | more
  · exact round less same
  · exact round more same.symm

/-- A walk without a choice that comes to an end does not come round. The induction is on the way to
the end, and a cycle through its start goes through its second place too. -/
theorem not_transGen_of_ends {α : Type} {follows : α → α → Prop}
    (unique : Relator.RightUnique follows) {start last : α}
    (ends : Relation.ReflTransGen follows start last) (nothing : ∀ next, ¬ follows last next) :
    ¬ Relation.TransGen follows start start := by
  induction ends using Relation.ReflTransGen.head_induction_on with
  | refl =>
    intro around
    obtain ⟨next, onward, -⟩ := Relation.TransGen.head'_iff.mp around
    exact nothing next onward
  | @head place next onward _ inductionHypothesis =>
    intro around
    obtain ⟨other, otherwise, back⟩ := Relation.TransGen.head'_iff.mp around
    obtain rfl := unique onward otherwise
    exact inductionHypothesis (Relation.TransGen.tail' back onward)

/-- A chain that stops does not lead into a cycle, where no name repeats two others. Both walk along
the same names, as there is only one way to go on. -/
theorem Stops.not_circles {calls : List Declaration} {name : String}
    (unclashing : ∀ name, ¬ Clashes calls name) (stops : Stops calls name) :
    ¬ Circles calls name := by
  rintro ⟨turn, leads, around⟩
  obtain ⟨last, ends, nothing, -⟩ := stops
  have unique : Relator.RightUnique (Follows calls) := by
    intro owner first second follows otherwise
    rw [Follows, elementsOf_eq_singleton (unclashing owner) otherwise] at follows
    exact List.mem_singleton.mp follows
  have nowhere (next : String) : ¬ Follows calls last next := by
    rw [Follows, nothing]
    exact List.not_mem_nil
  rcases Relation.ReflTransGen.total_of_right_unique unique ends leads with further | before
  · rcases Relation.ReflTransGen.cases_head further with rfl | ⟨next, onward, -⟩
    · exact not_transGen_of_ends unique .refl nowhere around
    · exact nowhere next onward
  · exact not_transGen_of_ends unique before nowhere around

/-! ## Tables of what is declared -/

section Tables

variable {calls : List Declaration} {productions : List Production}
  (resolved : (gathered calls).definitions.mapM (resolveDefinition (gathered calls).names.zipIdx) =
    .ok productions)
include resolved

/-- What a name refers to is declared, where all references are resolved: the numbers of the table
are those of the declared names. -/
theorem declared_of_refers {owner referenced : String} (refers : Refers calls owner referenced) :
    referenced ∈ declaredNames calls := by
  obtain ⟨definition, member, -, refersTo⟩ := refers_iff.mp refers
  obtain ⟨place, placed⟩ := List.getElem?_of_mem member
  obtain ⟨production, -, done, -⟩ := forall₂_at (mapM_eq_ok_iff.mp resolved) placed
  exact mem_names_iff_declared.mp ((resolution_of_ok done).mem_names refersTo)

/-- A repetition of the table repeats the name that its production refers to. A step in the table is
thus a step among the calls. -/
theorem follows_of_produced {id element : Nat} {name : String}
    (named : (gathered calls).names[id]? = some name)
    (produced : productions[id]? = some (.repetition element)) :
    ∃ next, (gathered calls).names[element]? = some next ∧ Follows calls name next := by
  obtain ⟨definition, placed, resolution⟩ := exists_resolution resolved produced
  rw [Draft.names, List.getElem?_map, placed] at named
  cases resolution with
  | @repetition owner repeated _ elementNamed =>
    obtain rfl : owner = name := Option.some.inj named
    exact ⟨repeated, elementNamed, mem_definitions_repetition_iff.mp (List.mem_of_getElem? placed)⟩

/-- Alternatives of the table are given for the name of their number, which is where a chain of
repetitions can stop. -/
theorem rowsOf_ne_nil_of_produced {id : Nat} {name : String} {rows : List (List Part)}
    (named : (gathered calls).names[id]? = some name)
    (produced : productions[id]? = some (.alternatives rows)) : rowsOf calls name ≠ [] := by
  obtain ⟨definition, placed, resolution⟩ := exists_resolution resolved produced
  rw [Draft.names, List.getElem?_map, placed] at named
  cases resolution with
  | @alternatives owner given _ parts =>
    obtain rfl : owner = name := Option.some.inj named
    obtain ⟨rfl, some⟩ := mem_definitions_alternatives_iff.mp (List.mem_of_getElem? placed)
    exact some

/-- A chain that leads to a symbol stops. The induction is on the steps that were allowed for it,
each of them one name further along the chain. -/
theorem stops_of_symbolAt? (unclashing : ∀ name, ¬ Clashes calls name) {steps id : Nat}
    {symbol : Symbol}
    (leads : symbolAt? (gathered calls).names productions steps id = some symbol) :
    Stops calls symbol.name := by
  induction steps generalizing id symbol with
  | zero => cases leads
  | succ steps inductionHypothesis =>
    rw [symbolAt?] at leads
    split at leads
    · next name rows named produced =>
      cases leads
      have given := rowsOf_ne_nil_of_produced resolved named produced
      exact ⟨name, .refl, elementsOf_eq_nil (unclashing name) given, given⟩
    · next name element named produced =>
      obtain ⟨repeated, chain, rfl⟩ := Option.map_eq_some_iff.mp leads
      obtain ⟨next, elementNamed, follows⟩ := follows_of_produced resolved named produced
      obtain rfl : next = repeated.name :=
        Option.some.inj (elementNamed.symm.trans (symbolAt?_place chain).2)
      obtain ⟨last, ends, nothing, given⟩ := inductionHypothesis chain
      exact ⟨last, .head follows ends, nothing, given⟩
    · cases leads

/-- Where nothing waits any more, every repetition stops, as each has the symbol that its chain
leads to. -/
theorem stops_of_settled (unclashing : ∀ name, ¬ Clashes calls name)
    {slots : List (Option Symbol)}
    (settled : Settled (gathered calls).names productions slots []) {name : String}
    (repeats : elementsOf calls name ≠ []) : Stops calls name := by
  obtain ⟨element, follows⟩ := List.exists_mem_of_ne_nil _ repeats
  obtain ⟨id, placed⟩ := List.getElem?_of_mem (mem_definitions_repetition_iff.mpr follows)
  have named : (gathered calls).names[id]? = some name := by
    rw [Draft.names, List.getElem?_map, placed]
    rfl
  have inside : id < productions.length := by
    rw [← length_names_of_resolved resolved]
    exact (List.getElem?_eq_some_iff.mp named).1
  obtain ⟨symbol, -, leads, -⟩ := forall₂_at settled.forall₂ (List.getElem?_range inside)
  obtain rfl : name = symbol.name := Option.some.inj (named.symm.trans (symbolAt?_place leads).2)
  exact stops_of_symbolAt? resolved unclashing leads

/-- What is blocked leads into a cycle, for its elements are blocked as well. -/
theorem circles_of_blocked {slots : List (Option Symbol)} {waiting : List Waiting}
    (blocked : Blocked (gathered calls).names productions slots waiting) {repetition : Waiting}
    (member : repetition ∈ waiting) {name : String}
    (named : (gathered calls).names[repetition.id]? = some name) : Circles calls name := by
  have linked := linked_of_resolved resolved (length_names_of_resolved resolved)
  let places : Set String :=
    {place | ∃ other ∈ waiting, (gathered calls).names[other.id]? = some place}
  have finite : places.Finite := by
    refine (List.finite_toSet (gathered calls).names).subset ?_
    rintro place ⟨other, -, otherNamed⟩
    exact List.mem_of_getElem? otherNamed
  refine exists_cycle finite (fun place within => ?_)
    (show name ∈ places from ⟨repetition, member, named⟩)
  obtain ⟨other, present, otherNamed⟩ := within
  have produced := blocked.repeats other present
  obtain ⟨next, elementNamed, follows⟩ := follows_of_produced resolved otherNamed produced
  obtain ⟨further, waits, same⟩ := blocked.onward present (linked _ _ produced)
  refine ⟨next, ⟨further, waits, ?_⟩, follows⟩
  rwa [same]

end Tables

/-! ## The verdict -/

/-- How a draft is resolved: up to the first check that fails, or up to a table in which nothing
waits any more. -/
inductive Course (draft : Draft) : Except RuleError Grammar → Prop where
  | improbable (improbable : ¬ Probable draft.repeatProbability) :
    Course draft (.error (.repeatProbability draft.repeatProbability))
  | duplicated {cause : RuleError} (probable : Probable draft.repeatProbability)
    (refused : enterNames [] draft.names.zipIdx = .error cause) : Course draft (.error cause)
  | unresolved {cause : RuleError} (probable : Probable draft.repeatProbability)
    (distinct : draft.names.Nodup)
    (refused : draft.definitions.mapM (resolveDefinition draft.names.zipIdx) = .error cause) :
    Course draft (.error cause)
  | blocked {productions : List Production} {slots : List (Option Symbol)} {first : Waiting}
    {others : List Waiting} (probable : Probable draft.repeatProbability)
    (distinct : draft.names.Nodup)
    (resolved : draft.definitions.mapM (resolveDefinition draft.names.zipIdx) = .ok productions)
    (blocked : Blocked draft.names productions slots (first :: others)) :
    Course draft (.error (.endlessRepetition (draft.names.getD first.id "")))
  | built {productions : List Production} {slots : List (Option Symbol)}
    (probable : Probable draft.repeatProbability) (distinct : draft.names.Nodup)
    (resolved : draft.definitions.mapM (resolveDefinition draft.names.zipIdx) = .ok productions)
    (settled : Settled draft.names productions slots []) :
    Course draft (.ok {
      symbols := slots.filterMap id
      productions
      byName := draft.names.zipIdx
      maxDepth := draft.maxDepth
      repeatProbability := draft.repeatProbability })

/-- Every draft takes its course. The checks are made one after the other, and the constructor is
that of the first that fails, or of the table that is left. -/
theorem course (draft : Draft) : Course draft (buildDraft draft) := by
  unfold buildDraft
  by_cases probable : 0 ≤ draft.repeatProbability ∧ draft.repeatProbability < 1
  · cases entered : enterNames [] draft.names.zipIdx with
    | error cause =>
      simp only [probable, entered]
      exact .duplicated probable entered
    | ok table =>
      obtain ⟨distinct, rfl⟩ := enterNames_nil_eq_ok_iff.mp entered
      cases resolved : draft.definitions.mapM (resolveDefinition draft.names.zipIdx) with
      | error cause =>
        simp only [probable, entered, resolved, bind, Except.bind]
        exact .unresolved probable distinct resolved
      | ok productions =>
        have sized := length_names_of_resolved resolved
        rcases settleAll_cases sized (settled_start sized) with
          ⟨filled, ended, settled⟩ | ⟨first, others, left, blocked, reported⟩
        · simp only [probable, entered, resolved, bind, Except.bind]
          rw [ended]
          exact .built probable distinct resolved settled
        · simp only [probable, entered, resolved, bind, Except.bind]
          rw [reported]
          exact .blocked probable distinct resolved blocked
  · simp only [probable]
    exact .improbable probable

/-- Calls are refused for what a check that fails says of them, and a table in which nothing
waits shows that there is nothing against them. -/
theorem verdict (calls : List Declaration) :
    (∃ grammar, build calls = .ok grammar ∧ WellDeclared calls) ∨
      ∃ error, build calls = .error error ∧ RefusedFor calls error := by
  have probability : (gathered calls).repeatProbability = lastProbability calls :=
    Draft.repeatProbability_foldl_declare calls {}
  have taken := course (gathered calls)
  change Course (gathered calls) (build calls) at taken
  generalize build calls = outcome at taken ⊢
  cases taken with
  | improbable improbable =>
    rw [probability] at improbable ⊢
    exact .inr ⟨_, rfl, .probability improbable⟩
  | duplicated probable refused =>
    rw [probability] at probable
    obtain ⟨name, -, rfl, earlier | twice⟩ := two_le_count_of_enterNames refused
    · cases earlier
    · rw [List.zipIdx_map_fst] at twice
      exact .inr ⟨_, rfl, .clash _ probable (clashes_iff.mpr twice)⟩
  | unresolved probable distinct refused =>
    rw [probability] at probable
    obtain ⟨definition, member, refusedFor⟩ := exists_of_mapM_eq_error refused
    obtain ⟨referenced, refersTo, absent, rfl⟩ := resolveDefinition_eq_error refusedFor
    refine .inr ⟨_, rfl, .reference _ _ probable (nodup_names_iff.mp distinct) ?_ ?_⟩
    · exact refers_iff.mpr ⟨definition, member, rfl, refersTo⟩
    · exact fun declared => absent (mem_names_iff_declared.mpr declared)
  | @blocked productions slots first others probable distinct resolved blocked =>
    rw [probability] at probable
    have sized := length_names_of_resolved resolved
    have produced := blocked.repeats first List.mem_cons_self
    have inside : first.id < (gathered calls).names.length := by
      rw [sized]
      exact (List.getElem?_eq_some_iff.mp produced).1
    have named := List.getElem?_eq_getElem inside
    rw [List.getD_eq_getElem?_getD, named, Option.getD_some]
    obtain ⟨next, -, follows⟩ := follows_of_produced resolved named produced
    have circles := circles_of_blocked resolved blocked List.mem_cons_self named
    exact .inr ⟨_, rfl, .cycle _ probable (nodup_names_iff.mp distinct)
      (fun _ _ => declared_of_refers resolved) (List.ne_nil_of_mem follows) circles⟩
  | @built productions slots probable distinct resolved settled =>
    have unclashing := nodup_names_iff.mp distinct
    exact .inl ⟨_, rfl, probability ▸ probable, unclashing,
      fun _ _ => declared_of_refers resolved, fun _ => stops_of_settled resolved unclashing settled⟩

/-- What calls are refused for is against them. An error is thus never raised for calls that could
have been built. -/
theorem RefusedFor.not_wellDeclared {calls : List Declaration} {error : RuleError}
    (refused : RefusedFor calls error) : ¬ WellDeclared calls := by
  intro wellDeclared
  cases refused with
  | probability improbable => exact improbable wellDeclared.probable
  | clash name _ clashes => exact wellDeclared.unclashing name clashes
  | reference owner referenced _ _ refers undefined =>
    exact undefined (wellDeclared.defined owner referenced refers)
  | cycle name _ unclashing _ repeats circles =>
    exact (wellDeclared.stopping name repeats).not_circles unclashing circles

/-- Calls build a grammar exactly if there is nothing against them, and otherwise are refused for
the first that is against them. -/
theorem build_decides (calls : List Declaration) :
    ((∃ grammar, build calls = .ok grammar) ↔ WellDeclared calls) ∧
      ∀ error, build calls = .error error → RefusedFor calls error := by
  rcases verdict calls with ⟨grammar, built, wellDeclared⟩ | ⟨cause, refused, against⟩
  · refine ⟨⟨fun _ => wellDeclared, fun _ => ⟨grammar, built⟩⟩, fun error failed => ?_⟩
    rw [built] at failed
    cases failed
  · refine ⟨⟨?_, fun wellDeclared => absurd wellDeclared against.not_wellDeclared⟩, ?_⟩
    · rintro ⟨grammar, built⟩
      rw [refused] at built
      cases built
    · intro error failed
      obtain rfl := Except.error.inj (refused.symm.trans failed)
      exact against

/-- A list of a loop is refused by the name of the list, which only leads into the cycle. -/
theorem build_decides_loop :
    build [.repetition "list" "loop", .repetition "loop" "loop"] =
      .error (.endlessRepetition "list") ∧
        RefusedFor [.repetition "list" "loop", .repetition "loop" "loop"]
          (.endlessRepetition "list") := by
  have refused : build [.repetition "list" "loop", .repetition "loop" "loop"] =
      .error (.endlessRepetition "list") := by
    rw [build_eq_ofDeclarations]
    rfl
  exact ⟨refused, (build_decides _).2 _ refused⟩

end Graft.Grammar
