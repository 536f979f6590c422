import Graft.Grammar.Passes
import Graft.Proofs.Correspondence
import Graft.Proofs.Grammar.Table

/-!
# Passes come to what chains come to

At every moment of a pass the empty slots are those of the repetitions that wait, and
a symbol that has been made is the one its chain of repetitions leads to, in no more
steps than there are filled slots. A pass in vain therefore leaves chains that stay
among the waiting ones for ever, and passes that leave nothing waiting have filled
the whole table. Either way the answer is that of following every chain by itself.
-/

namespace Graft.Grammar

variable {names : List String} {productions : List Production}

/-! ## The slots of a pass -/

/-- What holds of the slots and of what waits at every moment of a pass. -/
structure Settled (names : List String) (productions : List Production)
    (slots : List (Option Symbol)) (waiting : List Waiting) : Prop where
  /-- There is one slot for each number. -/
  counted : slots.length = productions.length
  /-- The empty slots are those of what waits. -/
  empty : ∀ id, slots[id]? = some none ↔ ∃ repetition ∈ waiting, repetition.id = id
  /-- What waits are repetitions of the table. -/
  repeats : ∀ repetition ∈ waiting,
    productions[repetition.id]? = some (Production.repetition repetition.element)
  /-- What waits does so in the order of the numbers. -/
  ascending : waiting.Pairwise fun first second => first.id < second.id
  /-- A symbol is what its chain leads to, and each step of the chain has filled a slot. -/
  made : ∀ id symbol, slots[id]? = some (some symbol) →
    symbolAt? names productions (productions.length - waiting.length) id = some symbol

/-- Further steps do not change what a chain leads to. The chain has come to a symbol with rows by
then and does not go on. -/
theorem symbolAt?_mono {steps further id : Nat} {symbol : Symbol} (more : steps ≤ further)
    (found : symbolAt? names productions steps id = some symbol) :
    symbolAt? names productions further id = some symbol := by
  induction more with
  | refl => exact found
  | step _ inductionHypothesis => exact symbolAt?_step inductionHypothesis

/-- Where a slot is looked up, a symbol is found only if it has been made. An empty slot and a place
past the end look the same and are neither. -/
theorem getElem?_of_getD {slots : List (Option Symbol)} {id : Nat} {symbol : Symbol}
    (found : slots.getD id none = some symbol) : slots[id]? = some (some symbol) := by
  rw [List.getD_eq_getElem?_getD] at found
  cases placed : slots[id]? with
  | none =>
    rw [placed] at found
    cases found
  | some slot =>
    rw [placed] at found
    exact congrArg some found

/-- What waits is the one in the middle or one of the others. A pass looks at one at a time, between
those it has passed over and those it has not come to. -/
theorem mem_waiting_iff {before after : List Waiting} {repetition other : Waiting} :
    other ∈ before ++ repetition :: after ↔ other = repetition ∨ other ∈ before ++ after :=
  List.perm_middle.mem_iff.trans List.mem_cons

/-- No other that waits has the number of the one in the middle, as every number waits once. -/
theorem Settled.apart {slots : List (Option Symbol)} {before after : List Waiting}
    {repetition : Waiting}
    (settled : Settled names productions slots (before ++ repetition :: after))
    {other : Waiting} (member : other ∈ before ++ after) : repetition.id ≠ other.id := by
  have differ : (before ++ repetition :: after).Pairwise fun first second => first.id ≠ second.id :=
    settled.ascending.imp fun less => Nat.ne_of_lt less
  have moved := (List.perm_middle.pairwise_iff fun different => Ne.symm different).mp differ
  exact (List.pairwise_cons.mp moved).1 other member

/-- A repetition gets its symbol once its element has one, and waits no longer. What it gets is what
its chain leads to, one step further than that of its element. -/
theorem Settled.place {slots : List (Option Symbol)} {before after : List Waiting}
    {repetition : Waiting} {element : Symbol} (sized : names.length = productions.length)
    (settled : Settled names productions slots (before ++ repetition :: after))
    (found : slots.getD repetition.element none = some element) :
    Settled names productions
      (slots.set repetition.id
        (some (.repetition repetition.id (names.getD repetition.id "") element)))
      (before ++ after) := by
  have member : repetition ∈ before ++ repetition :: after := mem_waiting_iff.mpr (.inl rfl)
  have vacant : slots[repetition.id]? = some none :=
    (settled.empty repetition.id).mpr ⟨repetition, member, rfl⟩
  have inside : repetition.id < slots.length := (List.getElem?_eq_some_iff.mp vacant).1
  have elementMade := settled.made _ _ (getElem?_of_getD found)
  -- A chain of no steps leads nowhere, so some slot was filled before.
  have someFilled : productions.length - (before ++ repetition :: after).length ≠ 0 := by
    intro nothing
    rw [nothing] at elementMade
    cases elementMade
  have steps : productions.length - (before ++ after).length =
      productions.length - (before ++ repetition :: after).length + 1 := by
    simp only [List.length_append, List.length_cons] at someFilled ⊢
    omega
  refine ⟨?counted, ?empty, ?repeats, ?ascending, ?made⟩
  case counted => rw [List.length_set, settled.counted]
  case empty =>
    intro id
    by_cases here : repetition.id = id
    · subst here
      rw [List.getElem?_set_self inside]
      constructor
      · intro filled
        cases filled
      · rintro ⟨other, present, same⟩
        exact absurd same.symm (settled.apart present)
    · rw [List.getElem?_set_ne here, settled.empty]
      constructor
      · rintro ⟨other, present, rfl⟩
        rcases mem_waiting_iff.mp present with rfl | elsewhere
        · exact absurd rfl here
        · exact ⟨other, elsewhere, rfl⟩
      · rintro ⟨other, present, rfl⟩
        exact ⟨other, mem_waiting_iff.mpr (.inr present), rfl⟩
  case repeats =>
    intro other present
    exact settled.repeats other (mem_waiting_iff.mpr (.inr present))
  case ascending =>
    refine settled.ascending.sublist ?_
    exact List.Sublist.append_left (List.sublist_cons_self repetition after) before
  case made =>
    intro id symbol filled
    rw [steps]
    by_cases here : repetition.id = id
    · subst here
      rw [List.getElem?_set_self inside] at filled
      obtain rfl := Option.some.inj (Option.some.inj filled)
      have named : repetition.id < names.length := by
        rw [sized, ← settled.counted]
        exact inside
      rw [symbolAt?, settled.repeats repetition member, List.getElem?_eq_getElem named]
      simp only [elementMade, Option.map_some, List.getD_eq_getElem?_getD,
        List.getElem?_eq_getElem named, Option.getD_some]
    · rw [List.getElem?_set_ne here] at filled
      exact symbolAt?_step (settled.made id symbol filled)

/-- What holds at every moment of a pass holds after it. The induction is on what is left to
go through, with what was passed over before it. -/
theorem Settled.settle {slots : List (Option Symbol)} {waiting : List Waiting}
    (sized : names.length = productions.length) (kept : List Waiting)
    (settled : Settled names productions slots (kept ++ waiting)) :
    Settled names productions (settle names slots waiting).slots
      (kept ++ (settle names slots waiting).waiting) := by
  fun_induction Grammar.settle names slots waiting generalizing kept with
  | case1 => exact settled
  | case2 slots repetition others element found symbol inductionHypothesis =>
    exact inductionHypothesis kept (settled.place sized found)
  | case3 slots repetition others absent pass inductionHypothesis =>
    have onward : Settled names productions slots ((kept ++ [repetition]) ++ others) := by
      rwa [List.append_assoc, List.singleton_append]
    have after := inductionHypothesis (kept ++ [repetition]) onward
    rwa [List.append_assoc, List.singleton_append] at after

/-- A pass in vain has changed nothing and met no element that has its symbol. A symbol that is made
takes its repetition out of those that wait. -/
theorem settle_inVain {slots : List (Option Symbol)} {waiting : List Waiting}
    (inVain : (settle names slots waiting).waiting.length = waiting.length) :
    settle names slots waiting = ⟨slots, waiting⟩ ∧
      ∀ repetition ∈ waiting, slots.getD repetition.element none = none := by
  fun_induction settle names slots waiting with
  | case1 => simp
  | case2 slots repetition others element found symbol inductionHypothesis =>
    have most := length_waiting_settle_le names
      (slots.set repetition.id (some symbol)) others
    simp only [List.length_cons] at inVain
    omega
  | case3 slots repetition others absent pass inductionHypothesis =>
    simp only [List.length_cons, Nat.add_right_cancel_iff] at inVain
    obtain ⟨unchanged, absentLater⟩ := inductionHypothesis inVain
    constructor
    · simp only [pass, unchanged]
    · exact List.forall_mem_cons.mpr ⟨absent, absentLater⟩

/-- What still waits after passes that no further pass would change: no element of it has its
symbol. -/
structure Blocked (names : List String) (productions : List Production)
    (slots : List (Option Symbol)) (waiting : List Waiting) : Prop
    extends Settled names productions slots waiting where
  absent : ∀ repetition ∈ waiting, slots.getD repetition.element none = none

/-- Passes end with nothing waiting, or report the first of those that block each other. Each pass
that is not in vain leaves fewer waiting. -/
theorem settleAll_cases {slots : List (Option Symbol)} {waiting : List Waiting}
    (sized : names.length = productions.length)
    (settled : Settled names productions slots waiting) :
    (∃ filled, settleAll names slots waiting = .ok filled ∧
      Settled names productions filled []) ∨
    ∃ first others left, Blocked names productions left (first :: others) ∧
      settleAll names slots waiting = .error (.endlessRepetition (names.getD first.id "")) := by
  fun_induction settleAll names slots waiting with
  | case1 slots => exact .inl ⟨slots, rfl, settled⟩
  | case2 slots first others pass inVain =>
    obtain ⟨-, absent⟩ := settle_inVain inVain
    exact .inr ⟨first, others, slots, ⟨settled, absent⟩, rfl⟩
  | case3 slots first others pass gained inductionHypothesis =>
    exact inductionHypothesis (settled.settle sized [])

/-- The element of what is blocked is blocked itself. It has no symbol, and whatever is in the table
without a symbol is waiting. -/
theorem Blocked.onward {slots : List (Option Symbol)} {waiting : List Waiting}
    (blocked : Blocked names productions slots waiting) {repetition : Waiting}
    (member : repetition ∈ waiting) (within : repetition.element < productions.length) :
    ∃ next ∈ waiting, next.id = repetition.element := by
  refine (blocked.empty repetition.element).mp ?_
  have absent := blocked.absent repetition member
  have inside : repetition.element < slots.length := by rwa [blocked.counted]
  rw [List.getD_eq_getElem?_getD, List.getElem?_eq_getElem inside] at absent
  rw [List.getElem?_eq_getElem inside]
  exact congrArg some absent

/-- Every element of a repetition is a number of the table. -/
def Linked (productions : List Production) : Prop :=
  ∀ (id element : Nat), productions[id]? = some (.repetition element) →
    element < productions.length

/-- The chain of what is blocked leads nowhere, however far it is followed. The induction is on the
steps, each of which leads to something that is blocked as well. -/
theorem Blocked.endless {slots : List (Option Symbol)} {waiting : List Waiting}
    (blocked : Blocked names productions slots waiting) (linked : Linked productions)
    (steps : Nat) : ∀ repetition ∈ waiting,
      symbolAt? names productions steps repetition.id = none := by
  induction steps with
  | zero => exact fun _ _ => rfl
  | succ steps inductionHypothesis =>
    intro repetition member
    have produced := blocked.repeats repetition member
    obtain ⟨next, present, same⟩ := blocked.onward member (linked _ _ produced)
    have chain := inductionHypothesis next present
    rw [same] at chain
    rw [symbolAt?, produced]
    cases names[repetition.id]? with
    | none => rfl
    | some name => simp only [chain, Option.map_none]

/-! ## Before the first pass -/

/-- What waits at first are the repetitions of the table, each with the number of its element. -/
theorem mem_repetitions_iff {repetition : Waiting} :
    repetition ∈ repetitions productions ↔
      productions[repetition.id]? = some (.repetition repetition.element) := by
  simp only [repetitions, List.mem_filterMap]
  constructor
  · rintro ⟨⟨production, id⟩, listed, waits⟩
    have placed := List.mem_zipIdx_iff_getElem?.mp listed
    cases production with
    | alternatives rows => cases waits
    | repetition element =>
      cases waits
      exact placed
  · intro placed
    exact ⟨(.repetition repetition.element, repetition.id),
      List.mem_zipIdx_iff_getElem?.mpr placed, rfl⟩

/-- A slot holds the symbol of alternatives at first, and nothing for a repetition, whose symbol is
not known before that of its element. -/
theorem getElem?_plainSlots (names : List String) (productions : List Production) (id : Nat) :
    (plainSlots names productions)[id]? =
      match productions[id]? with
      | some (.alternatives _) => some (some (.plain id (names.getD id "")))
      | some (.repetition _) => some none
      | none => none := by
  rw [plainSlots, List.getElem?_mapIdx]
  cases productions[id]? with
  | none => rfl
  | some production => cases production <;> rfl

/-- Fewer wait than there are numbers where some production has alternatives. A chain that leads to
a symbol is therefore shorter than the table is long. -/
theorem length_repetitions_lt {id : Nat} {rows : List (List Part)}
    (produced : productions[id]? = some (.alternatives rows)) :
    (repetitions productions).length < productions.length := by
  have fewer : (repetitions productions).length < productions.zipIdx.length := by
    refine List.length_filterMap_lt_length_iff_exists.mpr ⟨(.alternatives rows, id), ?_, rfl⟩
    exact List.mem_zipIdx_iff_getElem?.mpr produced
  rwa [List.length_zipIdx] at fewer

/-- The slots and what waits before the first pass are settled: symbols with rows are what their
chain leads to in no steps, and the rest waits. -/
theorem settled_start (sized : names.length = productions.length) :
    Settled names productions (plainSlots names productions) (repetitions productions) where
  counted := List.length_mapIdx
  empty := by
    intro id
    rw [getElem?_plainSlots]
    constructor
    · intro vacant
      split at vacant
      · cases vacant
      · next element produced => exact ⟨⟨id, element⟩, mem_repetitions_iff.mpr produced, rfl⟩
      · cases vacant
    · rintro ⟨repetition, member, rfl⟩
      rw [mem_repetitions_iff.mp member]
  repeats := fun repetition member => mem_repetitions_iff.mp member
  ascending := by
    have numbered : productions.zipIdx.Pairwise fun first second => first.2 < second.2 := by
      rw [← List.pairwise_map, List.zipIdx_map_snd]
      exact List.pairwise_lt_range'
    refine numbered.filterMap _ ?_
    rintro ⟨production, id⟩ ⟨other, further⟩ less waiting waits next follows
    cases production with
    | alternatives rows => cases waits
    | repetition element =>
      cases other with
      | alternatives rows => cases follows
      | repetition otherElement =>
        cases waits
        cases follows
        exact less
  made := by
    intro id symbol filled
    rw [getElem?_plainSlots] at filled
    split at filled
    · next rows produced =>
      obtain rfl := Option.some.inj (Option.some.inj filled)
      have named : id < names.length := by
        rw [sized]
        exact (List.getElem?_eq_some_iff.mp produced).1
      have fewer := length_repetitions_lt produced
      obtain ⟨steps, enough⟩ : ∃ steps, productions.length - (repetitions productions).length =
          steps + 1 := Nat.exists_eq_succ_of_ne_zero (by omega)
      rw [enough]
      simp [symbolAt?, named, produced]
    · cases filled
    · cases filled

/-! ## One answer -/

/-- A traversal stops at the first value that is refused, and those behind it are not come to. -/
theorem mapM_eq_error {ε α β : Type} {f : α → Except ε β} {before after : List α} {value : α}
    {cause : ε} (earlier : ∀ input ∈ before, ∃ output, f input = .ok output)
    (refused : f value = .error cause) : (before ++ value :: after).mapM f = .error cause := by
  induction before with
  | nil =>
    rw [List.nil_append, List.mapM_cons, refused]
    rfl
  | cons first rest inductionHypothesis =>
    obtain ⟨output, mapped⟩ := earlier first List.mem_cons_self
    have further := inductionHypothesis fun input member =>
      earlier input (List.mem_cons_of_mem _ member)
    rw [List.cons_append, List.mapM_cons, mapped]
    simp only [bind, Except.bind, further]

/-- Slots none of which is empty are those of a list of symbols, so that leaving out the empty ones
leaves out nothing. -/
theorem exists_eq_map_some {slots : List (Option Symbol)} (filled : none ∉ slots) :
    ∃ symbols : List Symbol, slots = symbols.map some := by
  induction slots with
  | nil => exact ⟨[], rfl⟩
  | cons slot slots inductionHypothesis =>
    rw [List.mem_cons, not_or] at filled
    obtain ⟨symbols, rfl⟩ := inductionHypothesis filled.2
    obtain ⟨symbol, rfl⟩ := Option.ne_none_iff_exists'.mp (Ne.symm filled.1)
    exact ⟨symbol :: symbols, rfl⟩

/-- Where nothing waits any more, every number has the symbol that its chain leads to. The number of
productions is steps enough for each chain. -/
theorem Settled.forall₂ {slots : List (Option Symbol)}
    (settled : Settled names productions slots []) :
    List.Forall₂ (fun id symbol => symbolAt? names productions productions.length id = some symbol)
      (List.range productions.length) (slots.filterMap id) := by
  have filled : none ∉ slots := by
    intro member
    obtain ⟨id, vacant⟩ := List.getElem?_of_mem member
    obtain ⟨repetition, absent, -⟩ := (settled.empty id).mp vacant
    cases absent
  obtain ⟨symbols, rfl⟩ := exists_eq_map_some filled
  have flattened : (symbols.map some).filterMap id = symbols := by simp
  have counted : symbols.length = productions.length := by
    rw [← settled.counted, List.length_map]
  rw [flattened]
  refine List.forall₂_iff_get.mpr ⟨by rw [List.length_range, counted], fun id inside placed => ?_⟩
  rw [List.get_eq_getElem, List.get_eq_getElem, List.getElem_range]
  refine settled.made id _ ?_
  rw [List.getElem?_map, List.getElem?_eq_getElem placed, Option.map_some]

/-- What comes before the first of those that block each other has its symbol. What waits stays in
the order of the table from pass to pass. -/
theorem Blocked.exists_symbolAt? {slots : List (Option Symbol)} {first : Waiting}
    {others : List Waiting} (blocked : Blocked names productions slots (first :: others)) {id : Nat}
    (before : id < first.id) :
    ∃ symbol, symbolAt? names productions productions.length id = some symbol := by
  have vacant := (blocked.empty first.id).mpr ⟨first, List.mem_cons_self, rfl⟩
  have inside : id < slots.length :=
    Nat.lt_trans before (List.getElem?_eq_some_iff.mp vacant).1
  cases placed : slots[id] with
  | none =>
    have empty : slots[id]? = some none := by rw [List.getElem?_eq_getElem inside, placed]
    obtain ⟨repetition, member, rfl⟩ := (blocked.empty id).mp empty
    rcases List.mem_cons.mp member with rfl | later
    · exact absurd before (Nat.lt_irrefl _)
    · have less := (List.pairwise_cons.mp blocked.ascending).1 repetition later
      exact absurd before (Nat.lt_asymm less)
  | some symbol =>
    have filled : slots[id]? = some (some symbol) := by
      rw [List.getElem?_eq_getElem inside, placed]
    exact ⟨symbol, symbolAt?_mono (Nat.sub_le _ _) (blocked.made id symbol filled)⟩

/-- The passes fill the table with what the chains lead to, or report the first number whose chain
leads nowhere. Both ways look at the numbers from the first to the last, and agree on the first that
fails. -/
theorem settleAll_eq_chains (sized : names.length = productions.length)
    (linked : Linked productions) {follow : Nat → Except RuleError Symbol}
    (found : ∀ id symbol, symbolAt? names productions names.length id = some symbol →
      follow id = .ok symbol)
    (absent : ∀ id, symbolAt? names productions names.length id = none →
      follow id = .error (.endlessRepetition (names.getD id ""))) :
    (List.range names.length).mapM follow =
      (settleAll names (plainSlots names productions) (repetitions productions)).map
        fun slots => slots.filterMap id := by
  rw [sized] at found absent ⊢
  rcases settleAll_cases sized (settled_start sized) with
    ⟨filled, ended, settled⟩ | ⟨first, others, left, blocked, reported⟩
  · rw [ended]
    exact mapM_eq_ok_iff.mpr (settled.forall₂.imp found)
  · rw [reported]
    have vacant := (blocked.empty first.id).mpr ⟨first, List.mem_cons_self, rfl⟩
    have inside : first.id < productions.length := by
      rw [← blocked.counted]
      exact (List.getElem?_eq_some_iff.mp vacant).1
    obtain ⟨beyond, split⟩ : ∃ beyond, List.range productions.length =
        List.range first.id ++ first.id :: beyond := by
      have placed : (List.range productions.length)[first.id]? = some first.id :=
        List.getElem?_range inside
      obtain ⟨here, same⟩ := List.getElem?_eq_some_iff.mp placed
      refine ⟨(List.range productions.length).drop (first.id + 1), ?_⟩
      conv_lhs => rw [← List.take_append_drop first.id (List.range productions.length)]
      rw [List.take_range, Nat.min_eq_left (Nat.le_of_lt inside),
        List.drop_eq_getElem_cons here, same]
    rw [split]
    refine mapM_eq_error (fun id member => ?_) ?_
    · obtain ⟨symbol, leads⟩ := blocked.exists_symbolAt? (List.mem_range.mp member)
      exact ⟨symbol, found id symbol leads⟩
    · exact absent first.id (blocked.endless linked _ first List.mem_cons_self)

/-- A number that a name is resolved to is one of that name, since the names were entered with their
places. -/
theorem getElem?_of_resolveName {owner referenced : String} {number : Nat}
    (resolved : resolveName names.zipIdx owner referenced = .ok number) :
    names[number]? = some referenced := by
  unfold resolveName at resolved
  split at resolved
  · next found =>
    cases resolved
    exact getElem?_of_lookup_zipIdx found
  · cases resolved

/-- A declared part with the number of the name that it refers to. -/
inductive PartResolution (names : List String) : NamedPart → Part → Prop where
  | literal (octets : Bytes) : PartResolution names (.literal octets) (.literal octets)
  | symbol {referenced : String} {id : Nat} (named : names[id]? = some referenced) :
    PartResolution names (.symbol referenced) (.symbol id)

/-- A definition with the numbers of the names that it refers to. -/
inductive Resolution (names : List String) : Definition → Production → Prop where
  | alternatives {owner : String} {given : List (List NamedPart)} {rows : List (List Part)}
    (parts : List.Forall₂ (List.Forall₂ (PartResolution names)) given rows) :
    Resolution names (.alternatives owner given) (.alternatives rows)
  | repetition {owner repeated : String} {element : Nat}
    (named : names[element]? = some repeated) :
    Resolution names (.repetition owner repeated) (.repetition element)

/-- A part is resolved by the number of the name that it refers to. A literal stays what it is. -/
theorem partResolution_of_ok {owner : String} {part : NamedPart} {resolved : Part}
    (done : resolvePart names.zipIdx owner part = .ok resolved) :
    PartResolution names part resolved := by
  cases part with
  | literal octets =>
    cases done
    exact .literal octets
  | symbol referenced =>
    cases named : resolveName names.zipIdx owner referenced with
    | error cause =>
      simp only [resolvePart, named, bind, Except.bind] at done
      cases done
    | ok id =>
      simp only [resolvePart, named, bind, Except.bind] at done
      cases done
      exact .symbol (getElem?_of_resolveName named)

/-- A definition is resolved by the numbers of the names that it refers to. A name without a number
would have been refused. -/
theorem resolution_of_ok {definition : Definition} {production : Production}
    (done : resolveDefinition names.zipIdx definition = .ok production) :
    Resolution names definition production := by
  cases definition with
  | alternatives owner given =>
    cases mapped : given.mapM fun row => row.mapM (resolvePart names.zipIdx owner) with
    | error cause =>
      simp only [resolveDefinition, mapped, bind, Except.bind] at done
      cases done
    | ok rows =>
      simp only [resolveDefinition, mapped, bind, Except.bind] at done
      cases done
      refine .alternatives ((mapM_eq_ok_iff.mp mapped).imp fun row parts rowMapped => ?_)
      exact (mapM_eq_ok_iff.mp rowMapped).imp fun _ _ => partResolution_of_ok
  | repetition owner repeated =>
    cases named : resolveName names.zipIdx owner repeated with
    | error cause =>
      simp only [resolveDefinition, named, bind, Except.bind] at done
      cases done
    | ok element =>
      simp only [resolveDefinition, named, bind, Except.bind] at done
      cases done
      exact .repetition (getElem?_of_resolveName named)

/-- What stands in the table is the resolution of the definition with its number, as definitions are
resolved one by one. -/
theorem exists_resolution {definitions : List Definition}
    (resolved : definitions.mapM (resolveDefinition names.zipIdx) = .ok productions) {id : Nat}
    {production : Production} (produced : productions[id]? = some production) :
    ∃ definition, definitions[id]? = some definition ∧ Resolution names definition production := by
  obtain ⟨definition, placed, done, -⟩ := forall₂_at (mapM_eq_ok_iff.mp resolved).flip produced
  exact ⟨definition, placed, resolution_of_ok done⟩

/-- The elements of resolved repetitions are numbers of the table. A reference to a name without a
number would have been refused. -/
theorem linked_of_resolved {definitions : List Definition}
    (resolved : definitions.mapM (resolveDefinition names.zipIdx) = .ok productions)
    (sized : names.length = productions.length) : Linked productions := by
  intro id element produced
  obtain ⟨definition, -, resolution⟩ := exists_resolution resolved produced
  cases resolution with
  | repetition named =>
    rw [← sized]
    exact (List.getElem?_eq_some_iff.mp named).1

/-- A resolved draft has a production for each of its names, as each definition bears a name and is
resolved into a production. -/
theorem length_names_of_resolved {draft : Draft}
    (resolved : draft.definitions.mapM (resolveDefinition draft.names.zipIdx) = .ok productions) :
    draft.names.length = productions.length := by
  rw [Draft.names, List.length_map, (mapM_eq_ok_iff.mp resolved).length_eq]

/-- Passes and chains resolve a draft alike, or refuse it for the same reason. The checks before the
passes are the same in both. -/
theorem buildDraft_eq_ofDraft (draft : Draft) : buildDraft draft = ofDraft draft := by
  unfold buildDraft ofDraft
  by_cases probable : 0 ≤ draft.repeatProbability ∧ draft.repeatProbability < 1
  · cases entered : enterNames [] draft.names.zipIdx with
    | error cause =>
      simp only [probable, entered]
      rfl
    | ok table =>
      obtain ⟨-, rfl⟩ := enterNames_nil_eq_ok_iff.mp entered
      cases resolved : draft.definitions.mapM (resolveDefinition draft.names.zipIdx) with
      | error cause =>
        simp only [probable, entered, resolved, bind, Except.bind]
      | ok productions =>
        have sized := length_names_of_resolved resolved
        simp only [probable, entered, resolved, bind, Except.bind]
        rw [settleAll_eq_chains sized (linked_of_resolved resolved sized)]
        · cases settleAll draft.names (plainSlots draft.names productions)
            (repetitions productions) <;> rfl
        · intro id symbol leads
          rw [leads]
          rfl
        · intro id leads
          rw [leads]
          rfl
  · simp only [probable]
    rfl

/-- What a list of calls builds is what it declares, and both are refused for the same reason. Laws
of what is declared are thereby laws of what the passes build. -/
theorem build_eq_ofDeclarations (declarations : List Declaration) :
    build declarations = ofDeclarations declarations :=
  buildDraft_eq_ofDraft _

end Graft.Grammar
