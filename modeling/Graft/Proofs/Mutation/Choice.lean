import Graft.Proofs.Corpus
import Graft.Proofs.Mutation.Rewrite
import Graft.Proofs.Mutation.Streak
import Graft.Proofs.Tree.Exchange
import Graft.Proofs.Walk

/-!
# What is chosen

A candidate is chosen unless there is nothing to choose: no candidate, or none that has weight.
The choice takes one word, and none where there is nothing.

The two splices choose three times, a node of the tree, a tree of the corpus and a donor in it,
and differ only in whether they look for nodes of repetitions alone. On a given source they find
a pair of a node and a donor for it, or there is a first choice with nothing to choose. A path
that is chosen leads to an inner node of the tree that it was collected from, so that nothing
comes to be missed afterwards.
-/

namespace Graft

open Graft.Random

variable {σ : Type} [Source σ]

namespace Candidate

variable {candidates : List Candidate}

/-- There is nothing to choose: no candidate, or none that has weight. -/
def Weightless (candidates : List Candidate) : Prop :=
  candidates = [] ∨ (Weighted.total (candidates.map Candidate.weight) == 0) = true

/-- Where there is nothing to choose nothing is chosen and no word is drawn, so that what follows
draws the same words as without the choice. -/
theorem select_of_weightless (nothing : Weightless candidates) (source : σ) :
    select candidates source = .ok none source :=
  Weighted.select_of_weightless nothing source

/-- Where there is something to choose a word chooses one of the candidates. It is one word, however
many there are. -/
theorem exists_select (something : ¬ Weightless candidates) (source : σ) :
    ∃ candidate ∈ candidates,
      select candidates source = .ok (some candidate) (Source.after source 1) := by
  have drawn : Chance.fraction source =
      .ok (Chance.unitFraction (Source.next64 source).1) (Source.after source 1) := rfl
  obtain ⟨candidate, placed, selected⟩ := Weighted.select_of_drawn something drawn
  exact ⟨candidate, List.mem_of_getElem? placed, selected⟩

/-- What is chosen is one of the candidates, whatever their weights are. From a list without weight
nothing is chosen at all. -/
theorem mem_of_select {candidate : Candidate} {source final : σ}
    (selected : select candidates source = .ok (some candidate) final) :
    candidate ∈ candidates := by
  by_cases nothing : Weightless candidates
  · cases selected.symm.trans (select_of_weightless nothing source)
  · obtain ⟨other, member, chosen⟩ := exists_select nothing source
    cases selected.symm.trans chosen
    exact member

end Candidate

/-- The candidates that are collected stand for the nodes that the query takes. Depths and weights
are left out, for what an edit does to a node depends on its path. -/
theorem Query.mem_paths_iff {query : Query} {tree : Tree} {path : Path} :
    path ∈ (query.collect tree).map Candidate.path ↔ query.Takes tree path := by
  rw [List.mem_map]
  constructor
  · rintro ⟨candidate, member, rfl⟩
    obtain ⟨depthIs, inside, -, symbol, children, found, accepted⟩ := mem_collect_iff.mp member
    rw [depthIs] at inside
    exact ⟨inside, symbol, children, found, accepts_iff.mp accepted⟩
  · rintro ⟨inside, symbol, children, found, accepted⟩
    use ⟨path, query.startDepth + path.length, lowered query.decay path.length query.weight⟩
    constructor
    · rw [mem_collect_iff]
      exact ⟨rfl, inside, rfl, symbol, children, found, accepts_iff.mpr accepted⟩
    · rfl

/-- The candidates that an edit may choose from. Either all nodes are wanted or only those of
repetitions. -/
def Sites.eligible (sites : Sites) (only : Bool) : List Candidate :=
  if only then sites.repetitions else sites.nodes

namespace Engine

variable {engine : Engine} {corpus : Corpus} {tree : Tree} {only : Bool} {source : σ}

/-- The depth of a node to choose is the length of the path to it, as the nodes to edit are
collected from the root. -/
theorem depth_of_eligible {site : Candidate} (member : site ∈ (engine.sites tree).eligible only) :
    site.depth = site.path.length := by
  cases only with
  | false => exact (node_of_mem_nodes member).1
  | true => exact (node_of_mem_repetitions member).1

/-- What a donor is looked for with, for a node of the symbol and the depth. -/
def donors (engine : Engine) (only : Bool) (symbol : Symbol) (depth : Nat) : Query :=
  { engine.query depth with filter := some symbol, repetitionsOnly := only }

/-- The nodes to choose from are the inner nodes that the settings let an edit reach, those of
repetitions if only these are wanted. No symbol is asked for, unlike with donors. -/
theorem mem_eligible_iff {path : Path} :
    path ∈ ((engine.sites tree).eligible only).map Candidate.path ↔
      path.length ≤ engine.settings.maxDepth ∧
        ∃ symbol children, tree.at? path = some (.expansion symbol children) ∧
          (only = true → symbol.isRepetition = true) := by
  cases only <;>
    exact Query.mem_paths_iff.trans (by simp [Query.Takes, query])

/-- The donors are the inner nodes of the other tree that are no deeper than the node they are for
and of the same symbol, those of repetitions if only these are wanted. -/
theorem mem_donors_iff {symbol : Symbol} {depth : Nat} {other : Tree} {path : Path} :
    path ∈ ((engine.donors only symbol depth).collect other).map Candidate.path ↔
      path.length ≤ depth ∧
        ∃ label grandchildren, other.at? path = some (.expansion label grandchildren) ∧
          symbol.id = label.id ∧ (only = true → label.isRepetition = true) := by
  rw [Query.mem_paths_iff]
  simp [Query.Takes, donors, query]

/-- A node of a tree and a donor for it in another tree. -/
structure Pairing where
  site : Candidate
  symbol : Symbol
  children : List Tree
  other : Tree
  donor : Candidate
  label : Symbol
  grandchildren : List Tree

/-- On the source the splices come to the pairing. Each of the three choices takes a word. -/
structure Pairing.Chosen (pairing : Pairing) (engine : Engine) (corpus : Corpus) (tree : Tree)
    (only : Bool) (source : σ) : Prop where
  selected : Candidate.select ((engine.sites tree).eligible only) source =
    .ok (some pairing.site) (Source.after source 1)
  found : tree.at? pairing.site.path = some (.expansion pairing.symbol pairing.children)
  wanted : only = true → pairing.symbol.isRepetition = true
  drawn : corpus.random (Source.after source 1) = .ok (some pairing.other) (Source.after source 2)
  member : pairing.other ∈ corpus.trees
  given : Candidate.select
    ((engine.donors only pairing.symbol pairing.site.depth).collect pairing.other)
      (Source.after source 2) = .ok (some pairing.donor) (Source.after source 3)
  taken : pairing.other.at? pairing.donor.path =
    some (.expansion pairing.label pairing.grandchildren)
  shallow : pairing.donor.path.length ≤ pairing.site.path.length
  same : pairing.label.id = pairing.symbol.id
  repeats : only = true → pairing.label.isRepetition = true

/-- On the source the splices find no donor: there is no node to choose, the corpus is empty, or
the tree that it gives has no node to choose for the node that is chosen. -/
inductive NoDonor (engine : Engine) (corpus : Corpus) (tree : Tree) (only : Bool) (source : σ) :
    Prop where
  | weightless (nothing : Candidate.Weightless ((engine.sites tree).eligible only))
  | deserted (empty : corpus.size = 0)
  | unmatched (site : Candidate) (symbol : Symbol) (children : List Tree) (other : Tree)
      (selected : Candidate.select ((engine.sites tree).eligible only) source =
        .ok (some site) (Source.after source 1))
      (found : tree.at? site.path = some (.expansion symbol children))
      (drawn : corpus.random (Source.after source 1) = .ok (some other) (Source.after source 2))
      (nothing : Candidate.Weightless
        ((engine.donors only symbol site.depth).collect other))

/-- If there is a donor to be found the splices come to a pairing. Each of the three choices has
something to choose from then, and chooses it. -/
theorem exists_chosen (something : ¬ NoDonor engine corpus tree only source) :
    ∃ pairing : Pairing, pairing.Chosen engine corpus tree only source := by
  have weighted : ¬ Candidate.Weightless ((engine.sites tree).eligible only) :=
    fun nothing => something (.weightless nothing)
  have inhabited : corpus.size ≠ 0 := fun empty => something (.deserted empty)
  obtain ⟨site, siteMember, selected⟩ := Candidate.exists_select weighted source
  obtain ⟨-, symbol, children, found, wanted⟩ :=
    mem_eligible_iff.mp (List.mem_map_of_mem siteMember)
  obtain ⟨other, member, drawn⟩ := Corpus.random_mem inhabited (Source.after source 1)
  have matched :
      ¬ Candidate.Weightless ((engine.donors only symbol site.depth).collect other) :=
    fun nothing => something (.unmatched site symbol children other selected found drawn nothing)
  obtain ⟨donor, donorMember, given⟩ :=
    Candidate.exists_select matched (Source.after source 2)
  obtain ⟨shallow, label, grandchildren, taken, same, repeats⟩ :=
    mem_donors_iff.mp (List.mem_map_of_mem donorMember)
  rw [depth_of_eligible siteMember] at shallow
  use ⟨site, symbol, children, other, donor, label, grandchildren⟩
  exact ⟨selected, found, wanted, drawn, member, given, taken, shallow, same.symm, repeats⟩

/-- What the two splices have in common. A node of the tree is chosen, then a tree of the corpus and
a donor in it, and only with a donor does a splice go on. The donors take the place of those that
were held. -/
def search (engine : Engine) (corpus : Corpus) (only : Bool) (tree : Tree) (held : List Candidate)
    (next : Candidate → Symbol → List Tree → Tree → Chance σ Edited) : Chance σ Attempt := do
  match ← Candidate.select ((engine.sites tree).eligible only) with
  | none => return { edited := .unchanged tree, donors := held }
  | some site =>
    match ← corpus.random with
    | none => return { edited := .unchanged tree, donors := held }
    | some other =>
      match tree.at? site.path with
      | none | some (.text _) => return { edited := .unchanged tree, donors := held }
      | some (.expansion symbol children) =>
        let (donors, donor?) ← chooseDonor (engine.donors only symbol site.depth) other held
        match donor? with
        | none => return { edited := .unchanged tree, donors }
        | some donor =>
          let edited ← next site symbol children donor
          return { edited, donors }

/-- A splice goes on by putting the donor in place of the node. What comes before that it shares
with the copy between repetitions. -/
theorem splice_eq (engine : Engine) (corpus : Corpus) (tree : Tree) (held : List Candidate) :
    (engine.splice corpus (engine.sites tree) tree held : Chance σ Attempt) =
      engine.search corpus false tree held fun site _ _ donor =>
        pure (.changed (tree.putAt site.path donor)) := by
  apply bind_congr
  rintro (_ | site)
  · rfl
  · apply bind_congr
    rintro (_ | other)
    · rfl
    · cases tree.at? site.path with
      | none => rfl
      | some node =>
        cases node with
        | text octets => rfl
        | expansion symbol children =>
          apply bind_congr
          rintro ⟨donors, _ | donor⟩ <;> rfl

/-- What a copy does with a node and a donor. It draws where the runs start and whether one is
deleted, and copies. -/
def copy (engine : Engine) (tree : Tree) (site : Candidate) (symbol : Symbol)
    (children : List Tree) (donor : Tree) : Chance σ Edited := do
  let position ← Chance.position children.length
  let donorPosition ← Chance.position donor.children.length
  let delete := (← Chance.fraction) < engine.settings.repeatSpliceDeleteProbability
  let edited ← engine.spliceRepetition (.expansion symbol children) donor position donorPosition
    delete
  return edited.within tree site.path

/-- A copy between repetitions goes on by copying. The nodes and the donors are those of
repetitions, and the search is the same otherwise. -/
theorem repeatSplice_eq (engine : Engine) (corpus : Corpus) (tree : Tree)
    (held : List Candidate) :
    (engine.repeatSplice corpus (engine.sites tree) tree held : Chance σ Attempt) =
      engine.search corpus true tree held (engine.copy tree) := by
  apply bind_congr
  rintro (_ | site)
  · rfl
  · apply bind_congr
    rintro (_ | other)
    · rfl
    · dsimp only
      cases tree.at? site.path with
      | none => rfl
      | some node =>
        cases node with
        | text octets => rfl
        | expansion symbol children =>
          apply bind_congr
          rintro ⟨donors, _ | donor⟩
          · rfl
          · simp only [copy, bind_assoc, pure_bind]

/-- The node is put in its own place, without a run of its children and with a run of the donor's.
Both runs may be empty, and the one that is deleted lies within the children. -/
theorem copy_ends (engine : Engine) (tree : Tree) (site : Candidate) (symbol : Symbol)
    (children : List Tree) (donor : Tree) {stops : Fault → Prop} :
    Ends (engine.copy tree site symbol children donor : Chance σ Edited)
      (fun edited => ∃ position count start copied, position + count ≤ children.length ∧
        edited = .changed (tree.putAt site.path (.expansion symbol
          (withRun position ((donor.children.drop start).take copied)
            (withoutRun position count children))))) stops := by
  refine Ends.bind (Chance.position_ends _) fun position drawn => ?_
  refine Ends.bind (Chance.position_ends _) fun start _ => ?_
  refine Ends.bind Chance.fraction_ends fun fraction _ => ?_
  have inside : position ≤ children.length := by omega
  refine Ends.bind (spliceRepetition_ends engine donor inside start _) ?_
  rintro edited ⟨count, copied, within, -, rfl⟩
  exact Ends.pure ⟨position, count, start, copied, within, rfl⟩

variable {held : List Candidate} {next : Candidate → Symbol → List Tree → Tree → Chance σ Edited}

/-- A search that finds no donor leaves the tree as it is. It does so without fail, whichever of the
three choices comes to nothing. -/
theorem search_of_noDonor (nothing : NoDonor engine corpus tree only source) :
    ∃ attempt final, engine.search corpus only tree held next source = .ok attempt final ∧
      attempt.edited = .unchanged tree := by
  by_cases weightless : Candidate.Weightless ((engine.sites tree).eligible only)
  · use { edited := .unchanged tree, donors := held }, source
    constructor
    · exact bind_of_ok (Candidate.select_of_weightless weightless source)
    · rfl
  · cases nothing with
    | weightless nothing => exact absurd nothing weightless
    | deserted empty =>
      obtain ⟨site, -, selected⟩ := Candidate.exists_select weightless source
      have missing : corpus.random (Source.after source 1) = .ok none (Source.after source 1) := by
        simp only [Corpus.random, empty, ↓reduceIte]
        rfl
      use { edited := .unchanged tree, donors := held }, Source.after source 1
      constructor
      · rw [search, bind_of_ok selected]
        exact bind_of_ok missing
      · rfl
    | unmatched site symbol children other selected found drawn nothing =>
      have unmatched :
          chooseDonor (engine.donors only symbol site.depth) other held
              (Source.after source 2) =
            .ok ((engine.donors only symbol site.depth).collect other, none)
              (Source.after source 2) := by
        rw [chooseDonor, Query.refilled_eq]
        exact bind_of_ok (Candidate.select_of_weightless nothing _)
      use { edited := .unchanged tree
            donors := (engine.donors only symbol site.depth).collect other },
        Source.after source 2
      constructor
      · rw [search, bind_of_ok selected]
        dsimp only
        rw [bind_of_ok drawn]
        simp only [found]
        exact bind_of_ok unmatched
      · rfl

/-- A search that comes to a pairing goes on with it, and the donors it was chosen from are
held. -/
theorem search_of_chosen {pairing : Pairing}
    (chosen : pairing.Chosen engine corpus tree only source) :
    engine.search corpus only tree held next source =
      (do
        let edited ← next pairing.site pairing.symbol pairing.children
          (.expansion pairing.label pairing.grandchildren)
        return {
          edited
          donors := (engine.donors only pairing.symbol pairing.site.depth).collect
            pairing.other } : Chance σ Attempt) (Source.after source 3) := by
  have donated : chooseDonor (engine.donors only pairing.symbol pairing.site.depth)
      pairing.other held (Source.after source 2) =
        .ok ((engine.donors only pairing.symbol pairing.site.depth).collect pairing.other,
          some (.expansion pairing.label pairing.grandchildren)) (Source.after source 3) := by
    rw [chooseDonor, Query.refilled_eq, bind_of_ok chosen.given]
    simp only [chosen.taken]
    rfl
  rw [search, bind_of_ok chosen.selected]
  dsimp only
  rw [bind_of_ok chosen.drawn]
  simp only [chosen.found]
  rw [bind_of_ok donated]

/-- A splice that comes to a pairing puts the donor in place of the node, with all that is below the
donor. -/
theorem splice_of_chosen (held : List Candidate) {pairing : Pairing}
    (chosen : pairing.Chosen engine corpus tree false source) :
    ∃ attempt final,
      engine.splice corpus (engine.sites tree) tree held source = .ok attempt final ∧
        attempt.edited = .changed (tree.putAt pairing.site.path
          (.expansion pairing.label pairing.grandchildren)) := by
  rw [splice_eq, search_of_chosen chosen]
  exact ⟨_, _, rfl, rfl⟩

/-- A copy that comes to a pairing puts the node in its own place, without a run of its children
and with a run of the donor's. -/
theorem repeatSplice_of_chosen (held : List Candidate) {pairing : Pairing}
    (chosen : pairing.Chosen engine corpus tree true source) :
    ∃ attempt final position count start copied,
      engine.repeatSplice corpus (engine.sites tree) tree held source = .ok attempt final ∧
        position + count ≤ pairing.children.length ∧
          attempt.edited = .changed (tree.putAt pairing.site.path (.expansion pairing.symbol
            (withRun position ((pairing.grandchildren.drop start).take copied)
              (withoutRun position count pairing.children)))) := by
  obtain ⟨edited, final, ended, position, count, start, copied, within, replaced⟩ :=
    (copy_ends engine tree pairing.site pairing.symbol pairing.children
      (.expansion pairing.label pairing.grandchildren)).exists_ok (Source.after source 3)
  rw [repeatSplice_eq, search_of_chosen chosen, bind_of_ok ended]
  exact ⟨_, final, position, count, start, copied, rfl, within, replaced⟩

end Engine

end Graft
