import Mathlib.Data.List.Nodup
import Graft.Grammar.Declaration
import Graft.Proofs.Correspondence
import Graft.Tree.Basic

/-!
# The tables of declared grammars

A grammar owns a symbol if the symbol stands at its own number in the table. What
a declaration is resolved into is a table in which every symbol does: names are
distinct, so a name finds the symbol that bears it, and a repetition carries the
very symbol that its production repeats. Samples refer to symbols by name and
trees carry the symbols themselves; these facts tie the two together.
-/

namespace Graft.Grammar

/-- The symbol stands in the table at its own number. -/
def Owns (grammar : Grammar) (symbol : Symbol) : Prop :=
  grammar.symbols[symbol.id]? = some symbol

instance (grammar : Grammar) (symbol : Symbol) : Decidable (grammar.Owns symbol) :=
  inferInstanceAs (Decidable (_ = _))

/-- A table whose entries agree with each other. -/
structure WellFormed (grammar : Grammar) : Prop where
  /-- Whatever stands in the table stands there at its own number. -/
  numbered : ∀ symbol ∈ grammar.symbols, grammar.Owns symbol
  /-- No two symbols bear the same name. -/
  distinct : (grammar.symbols.map Symbol.name).Nodup
  /-- The name of each symbol is entered with its number, and no other name is entered. -/
  named : grammar.byName = (grammar.symbols.map Symbol.name).zipIdx
  /-- A symbol with alternatives carries no element. -/
  plain : ∀ symbol rows, grammar.Owns symbol →
    grammar.productions[symbol.id]? = some (.alternatives rows) → symbol.element? = none
  /-- A repetition carries the symbol that its production repeats. -/
  repeats : ∀ symbol element, grammar.Owns symbol →
    grammar.productions[symbol.id]? = some (.repetition element) →
      ∃ repeated, symbol.element? = some repeated ∧ grammar.Owns repeated ∧ repeated.id = element

/-! ## Names and their numbers -/

section Names

variable {names : List String} {name : String}

/-- The number that is looked up by a name is one at which the name stands, for each name is
entered with its place. -/
theorem getElem?_of_lookup_zipIdx {id : Nat} (found : names.zipIdx.lookup name = some id) :
    names[id]? = some name := by
  obtain ⟨before, behind, split, -⟩ := List.lookup_eq_some_iff.mp found
  have entered : (name, id) ∈ names.zipIdx := by simp [split]
  exact List.mk_mem_zipIdx_iff_getElem?.mp entered

/-- A name has no number exactly if it is not among the names. The numbers play no part in whether
something is found. -/
theorem lookup_zipIdx_eq_none_iff : names.zipIdx.lookup name = none ↔ name ∉ names := by
  rw [List.lookup_eq_none_iff]
  constructor
  · intro absent member
    obtain ⟨id, placed⟩ := List.getElem?_of_mem member
    have different := absent (name, id) (List.mk_mem_zipIdx_iff_getElem?.mpr placed)
    simp at different
  · rintro absent ⟨other, id⟩ entered
    have member : other ∈ names := List.mem_of_getElem? (List.mk_mem_zipIdx_iff_getElem?.mp entered)
    rw [bne_iff_ne]
    rintro rfl
    exact absent member

end Names

/-- Equal numbers make equal symbols of a table, since a symbol of the table is what stands at its
number. -/
theorem Owns.eq_of_id {grammar : Grammar} {left right : Symbol} (leftOwned : grammar.Owns left)
    (rightOwned : grammar.Owns right) (same : left.id = right.id) : left = right := by
  unfold Owns at leftOwned rightOwned
  rw [same, rightOwned] at leftOwned
  exact (Option.some.inj leftOwned).symm

namespace WellFormed

variable {grammar : Grammar}

/-- What stands at a place of the table has the place for its number. The table is made in the order
of the numbers. -/
theorem id_of_getElem? (wellFormed : grammar.WellFormed) {place : Nat} {symbol : Symbol}
    (found : grammar.symbols[place]? = some symbol) : symbol.id = place := by
  have owned : grammar.symbols[symbol.id]? = some symbol :=
    wellFormed.numbered symbol (List.mem_of_getElem? found)
  have distinct : grammar.symbols.Nodup := .of_map _ wellFormed.distinct
  have inside := (List.getElem?_eq_some_iff.mp owned).1
  exact (List.getElem?_inj inside distinct).mp (owned.trans found.symm)

/-- A name finds exactly the symbol of the table that bears it. The table of names was filled from
the names of the symbols, and all of them differ. -/
theorem symbol?_eq_some_iff (wellFormed : grammar.WellFormed) {name : String} {symbol : Symbol} :
    grammar.symbol? name = some symbol ↔ grammar.Owns symbol ∧ symbol.name = name := by
  have bears {id : Nat} (entered : grammar.byName.lookup name = some id) :
      (grammar.symbols.map Symbol.name)[id]? = some name :=
    getElem?_of_lookup_zipIdx (wellFormed.named ▸ entered)
  constructor
  · intro found
    obtain ⟨id, entered, placed⟩ := Option.bind_eq_some_iff.mp found
    have named := bears entered
    rw [List.getElem?_map, placed] at named
    exact ⟨wellFormed.numbered symbol (List.mem_of_getElem? placed), Option.some.inj named⟩
  · rintro ⟨owned, rfl⟩
    have member : symbol ∈ grammar.symbols := List.mem_of_getElem? owned
    cases entered : grammar.byName.lookup symbol.name with
    | none =>
      rw [wellFormed.named] at entered
      exact absurd (List.mem_map_of_mem member) (lookup_zipIdx_eq_none_iff.mp entered)
    | some id =>
      obtain ⟨other, placed, sameName⟩ :=
        Option.map_eq_some_iff.mp (List.getElem?_map .. ▸ bears entered)
      obtain rfl : other = symbol := List.inj_on_of_nodup_map wellFormed.distinct
        (List.mem_of_getElem? placed) member sameName
      exact Option.bind_eq_some_iff.mpr ⟨id, entered, placed⟩

/-- The symbol found under a name bears it. The number found may stand for another symbol only in a
table of names that was not made with the symbols. -/
theorem name_of_symbol? (wellFormed : grammar.WellFormed) {name : String} {symbol : Symbol}
    (found : grammar.symbol? name = some symbol) : symbol.name = name :=
  (wellFormed.symbol?_eq_some_iff.mp found).2

/-- The symbol that a name finds is the grammar's own, as it is what stands at the number found. -/
theorem owns_of_symbol? (wellFormed : grammar.WellFormed) {name : String} {symbol : Symbol}
    (found : grammar.symbol? name = some symbol) : grammar.Owns symbol :=
  (wellFormed.symbol?_eq_some_iff.mp found).1

/-- A symbol that carries an element is a repetition of it, and the element is the table's. A symbol
of the table carries what its production repeats and nothing else. -/
theorem repeats_of_element? (wellFormed : grammar.WellFormed) {symbol element : Symbol}
    {production : Production} (owned : grammar.Owns symbol)
    (produced : grammar.productions[symbol.id]? = some production)
    (carried : symbol.element? = some element) :
    production = .repetition element.id ∧ grammar.Owns element := by
  cases production with
  | alternatives rows =>
    have plain := wellFormed.plain symbol rows owned produced
    rw [carried] at plain
    cases plain
  | repetition id =>
    obtain ⟨repeated, carries, ownsRepeated, rfl⟩ := wellFormed.repeats symbol id owned produced
    obtain rfl : element = repeated := by simpa [carried] using carries
    exact ⟨rfl, ownsRepeated⟩

end WellFormed

/-! ## Resolution yields well-formed tables -/

/-- Names are entered exactly if each is new when its turn comes, which is to say that they
differ from each other and from what is in the table. They are then behind it, in order. -/
theorem enterNames_eq_ok_iff {table entered : NameTable} {entries : List (String × Nat)} :
    enterNames table entries = .ok entered ↔
      ((entries.map Prod.fst).Nodup ∧ ∀ entry ∈ entries, table.lookup entry.1 = none) ∧
        entered = table ++ entries := by
  induction entries generalizing table with
  | nil =>
    rw [enterNames, List.append_nil, Except.ok.injEq, eq_comm]
    simp
  | cons entry rest inductionHypothesis =>
    obtain ⟨name, id⟩ := entry
    have fresh : (∀ entry ∈ rest, List.lookup entry.1 [(name, id)] = none) ↔
        name ∉ rest.map Prod.fst := by
      simp only [List.lookup_eq_none_iff, List.mem_singleton, forall_eq, bne_iff_ne, List.mem_map,
        not_exists, not_and, ne_eq]
    simp only [enterNames, List.map_cons, List.nodup_cons, List.forall_mem_cons, ← fresh]
    cases known : table.lookup name with
    | some number => simp
    | none =>
      simp only [inductionHypothesis, List.append_assoc, List.singleton_append,
        List.lookup_append, Option.or_eq_none_iff]
      grind

/-- The names of a draft are entered with their places if they differ, and only then. Nothing is in
the table beforehand that they could clash with. -/
theorem enterNames_nil_eq_ok_iff {names : List String} {table : NameTable} :
    enterNames [] names.zipIdx = .ok table ↔ names.Nodup ∧ table = names.zipIdx := by
  simp [enterNames_eq_ok_iff, List.zipIdx_map_fst]

section Chains

variable {names : List String} {productions : List Production}

/-- More steps do not change the symbol that a chain of repetitions leads to. The induction is on
the steps, along the chain. -/
theorem symbolAt?_step {steps id : Nat} {symbol : Symbol}
    (found : symbolAt? names productions steps id = some symbol) :
    symbolAt? names productions (steps + 1) id = some symbol := by
  induction steps generalizing id symbol with
  | zero => cases found
  | succ steps inductionHypothesis =>
    rw [symbolAt?] at found ⊢
    split at found
    · exact found
    · next name element named produced =>
      obtain ⟨repeated, chain, rfl⟩ := Option.map_eq_some_iff.mp found
      simp only [inductionHypothesis chain, Option.map_some]
    · cases found

/-- A resolved symbol bears the number and the name of its place, however long its chain is: only
what it carries comes from further along. -/
theorem symbolAt?_place {steps id : Nat} {symbol : Symbol}
    (found : symbolAt? names productions steps id = some symbol) :
    symbol.id = id ∧ names[id]? = some symbol.name := by
  cases steps with
  | zero => cases found
  | succ steps =>
    rw [symbolAt?] at found
    split at found
    · next named produced =>
      cases found
      exact ⟨rfl, named⟩
    · next name element named produced =>
      obtain ⟨repeated, -, rfl⟩ := Option.map_eq_some_iff.mp found
      exact ⟨rfl, named⟩
    · cases found

/-- A resolved symbol carries an element exactly if its production repeats one, and the
element is what the repeated number is resolved to. -/
theorem symbolAt?_element {steps id : Nat} {symbol : Symbol}
    (found : symbolAt? names productions steps id = some symbol) :
    match productions[id]? with
    | some (.alternatives _) => symbol.element? = none
    | some (.repetition element) =>
      ∃ repeated, symbol.element? = some repeated ∧
        symbolAt? names productions steps element = some repeated
    | none => False := by
  cases steps with
  | zero => cases found
  | succ steps =>
    rw [symbolAt?] at found
    split at found
    · next named produced =>
      cases found
      simp only [produced, Symbol.element?]
    · next name element named produced =>
      obtain ⟨repeated, chain, rfl⟩ := Option.map_eq_some_iff.mp found
      simp only [produced]
      exact ⟨repeated, rfl, symbolAt?_step chain⟩
    · cases found

end Chains

/-- What a table owes to the draft that it was resolved from. -/
structure Resolves (draft : Draft) (grammar : Grammar) : Prop where
  /-- The draft declares no name twice. -/
  distinct : draft.names.Nodup
  /-- Each production is that of the definition at its place. -/
  productions : List.Forall₂
    (fun definition production => resolveDefinition draft.names.zipIdx definition = .ok production)
    draft.definitions grammar.productions
  /-- Each name is entered with its place. -/
  byName : grammar.byName = draft.names.zipIdx
  /-- Each symbol is what its number is resolved to. -/
  symbols : List.Forall₂
    (fun id symbol =>
      symbolAt? draft.names grammar.productions draft.names.length id = some symbol)
    (List.range draft.names.length) grammar.symbols

/-- A draft is resolved into a grammar that it resolves and that has its settings of growth, if
its probability is one to go on with. -/
theorem ofDraft_eq_ok_iff {draft : Draft} {grammar : Grammar} :
    ofDraft draft = .ok grammar ↔
      (0 ≤ draft.repeatProbability ∧ draft.repeatProbability < 1) ∧ Resolves draft grammar ∧
        grammar.maxDepth = draft.maxDepth ∧
          grammar.repeatProbability = draft.repeatProbability := by
  constructor
  · intro built
    simp only [ofDraft, bind, Except.bind, pure, Except.pure] at built
    split at built
    · next probable =>
      split at built
      · cases built
      · next table entered =>
        obtain ⟨distinct, rfl⟩ := enterNames_nil_eq_ok_iff.mp entered
        split at built
        · cases built
        · next productions produced =>
          split at built
          · cases built
          · next symbols numbered =>
            cases built
            refine ⟨probable, ⟨distinct, mapM_eq_ok_iff.mp produced, rfl, ?_⟩, rfl, rfl⟩
            refine (mapM_eq_ok_iff.mp numbered).imp fun id symbol placed => ?_
            split at placed
            · next found =>
              cases placed
              exact found
            · cases placed
    · cases built
  · rintro ⟨probable, resolves, depth, probability⟩
    have entered := enterNames_nil_eq_ok_iff.mpr ⟨resolves.distinct, rfl⟩
    have produced := mapM_eq_ok_iff.mpr resolves.productions
    have numbered (number : Nat → Except RuleError Symbol)
        (found : ∀ id symbol,
          symbolAt? draft.names grammar.productions draft.names.length id = some symbol →
            number id = .ok symbol) :
        (List.range draft.names.length).mapM number = .ok grammar.symbols :=
      mapM_eq_ok_iff.mpr (resolves.symbols.imp found)
    simp only [ofDraft, probable, and_self, ↓reduceIte, entered, produced, bind, Except.bind]
    rw [numbered, ← resolves.byName, ← depth, ← probability]
    · rfl
    · intro id symbol found
      rw [found]
      rfl

/-- A draft that is not refused is resolved. Laws of the table are proved from this alone, without a
look at how it was made. -/
theorem resolves_of_ofDraft {draft : Draft} {grammar : Grammar}
    (built : ofDraft draft = .ok grammar) : Resolves draft grammar :=
  (ofDraft_eq_ok_iff.mp built).2.1

namespace Resolves

variable {draft : Draft} {grammar : Grammar}

/-- A number stands for a symbol exactly if it is resolved to it. There are as many symbols as
names, so that every number that is resolved has a place. -/
theorem getElem?_eq_some_iff (resolves : Resolves draft grammar) {id : Nat} {symbol : Symbol} :
    grammar.symbols[id]? = some symbol ↔
      symbolAt? draft.names grammar.productions draft.names.length id = some symbol := by
  obtain ⟨counted, placed⟩ := List.forall₂_iff_get.mp resolves.symbols
  rw [List.length_range] at counted
  constructor
  · intro found
    obtain ⟨inside, rfl⟩ := List.getElem?_eq_some_iff.mp found
    simpa using placed id (by simpa [counted] using inside) inside
  · intro found
    have named : id < draft.names.length :=
      (List.getElem?_eq_some_iff.mp (symbolAt?_place found).2).1
    have inside : id < grammar.symbols.length := by omega
    have resolved := placed id (by simpa using named) inside
    simp only [List.get_eq_getElem, List.getElem_range, found] at resolved
    rw [List.getElem?_eq_getElem inside]
    exact resolved.symm

/-- The symbols bear the declared names, in order, for every symbol bears the name of its place. -/
theorem map_name (resolves : Resolves draft grammar) :
    grammar.symbols.map Symbol.name = draft.names := by
  have counted : draft.names.length = grammar.symbols.length := by
    simpa using resolves.symbols.length_eq
  refine List.ext_getElem (by simp [counted]) fun id inside named => ?_
  have found : grammar.symbols[id]? = some grammar.symbols[id] :=
    List.getElem?_eq_getElem (by simpa using inside)
  have bears := (symbolAt?_place (resolves.getElem?_eq_some_iff.mp found)).2
  rw [List.getElem?_eq_getElem named] at bears
  simpa using (Option.some.inj bears).symm

/-- What a draft is resolved into is a well-formed table. Later laws ask for a well-formed table and
not for where it comes from. -/
theorem wellFormed (resolves : Resolves draft grammar) : grammar.WellFormed where
  numbered := by
    intro symbol member
    obtain ⟨id, found⟩ := List.getElem?_of_mem member
    have placed := (symbolAt?_place (resolves.getElem?_eq_some_iff.mp found)).1
    rw [Owns, placed]
    exact found
  distinct := resolves.map_name ▸ resolves.distinct
  named := resolves.map_name ▸ resolves.byName
  plain := by
    intro symbol rows owned produced
    have element := symbolAt?_element (resolves.getElem?_eq_some_iff.mp owned)
    simpa only [produced] using element
  repeats := by
    intro symbol element owned produced
    have repeats := symbolAt?_element (resolves.getElem?_eq_some_iff.mp owned)
    simp only [produced] at repeats
    obtain ⟨repeated, carried, resolved⟩ := repeats
    have placed : repeated.id = element := (symbolAt?_place resolved).1
    have owns : grammar.Owns repeated := by
      rw [Owns, placed]
      exact resolves.getElem?_eq_some_iff.mpr resolved
    exact ⟨repeated, carried, owns, placed⟩

end Resolves

/-- A declared grammar has a well-formed table, by whatever calls it was declared. The laws of
tables are used for it from here on. -/
theorem wellFormed_of_ofDeclarations {declarations : List Declaration} {grammar : Grammar}
    (built : ofDeclarations declarations = .ok grammar) : grammar.WellFormed :=
  (resolves_of_ofDraft built).wellFormed

/-! ## A small grammar -/

/-- Runs of binary digits, as they are declared. -/
def numerals.declarations : List Declaration :=
  [.repetition "list" "digit", .rule "digit" [.literal [48]], .rule "digit" [.literal [49]]]

/-- Runs of binary digits. -/
def numerals : Grammar where
  symbols := [.repetition 0 "list" (.plain 1 "digit"), .plain 1 "digit"]
  productions := [.repetition 1, .alternatives [[.literal [48]], [.literal [49]]]]
  byName := [("list", 0), ("digit", 1)]
  maxDepth := 100
  repeatProbability := 0.75

/-- The tree of a binary numeral with the given digits. -/
def numerals.tree (digits : Bytes) : Tree :=
  .expansion (.repetition 0 "list" (.plain 1 "digit"))
    (digits.map fun digit => .expansion (.plain 1 "digit") [.text [digit]])

/-- The grammar of binary numerals is not refused. -/
theorem ofDeclarations_numerals : ofDeclarations numerals.declarations = .ok numerals := rfl

end Graft.Grammar
