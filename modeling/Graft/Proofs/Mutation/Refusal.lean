import Graft.Proofs.Mutation.Choice
import Graft.Proofs.Mutation.RepetitionEdit
import Graft.Proofs.Mutation.Safety

/-!
# Why an attempt is refused

An attempt is refused where it ends and leaves the tree as it is. For every strategy the causes
are few: there is nothing to choose from, or nothing grows. A path that is chosen always leads to
an inner node, and an edit is never aimed past the end, so that no attempt is refused on the way.

What is not refused either changes the tree or is abandoned. The two splices are never abandoned.
The other two are for want of patience or because of depths that cannot be counted, and to grow a
node afresh is also if the nodes to choose from have no weight, which takes a decay that is not
above zero.
-/

namespace Graft

open Graft.Random

variable {σ : Type}

/-- From the source the edit ends and is refused. -/
def Chance.Refused (edit : Chance σ Edited) (source : σ) : Prop :=
  ∃ edited final, edit source = .ok edited final ∧ edited.applied = false

/-- An edit that begins with a step that answers is refused exactly if the rest of it is. The step
itself refuses nothing. -/
theorem Chance.refused_after_iff {α : Type} {first : Chance σ α} {next : α → Chance σ Edited}
    {source reached : σ} {value : α} (answered : first source = .ok value reached) :
    (first >>= next).Refused source ↔ (next value).Refused reached := by
  unfold Refused
  rw [bind_of_ok answered]

/-- An edit that is read off something made before it, without a further draw, is refused exactly
if what is made reads so. If nothing is made the edit does not end. -/
theorem Chance.refused_bind_iff {α : Type} {making : Chance σ α} {next : α → Chance σ Edited}
    (read : α → Edited) (reads : ∀ made, next made = pure (read made)) {source : σ} :
    (making >>= next).Refused source ↔
      ∃ made final, making source = .ok made final ∧ (read made).applied = false := by
  cases ended : making source with
  | error fault reached =>
    unfold Refused
    rw [bind_of_error ended]
    constructor
    · rintro ⟨edited, final, ended, -⟩
      cases ended
    · rintro ⟨made, final, ended, -⟩
      cases ended
  | ok made reached =>
    rw [refused_after_iff ended, reads]
    constructor
    · rintro ⟨edited, final, ended, refused⟩
      cases ended
      exact ⟨made, reached, rfl, refused⟩
    · rintro ⟨other, final, ended, refused⟩
      cases ended
      exact ⟨read made, reached, rfl, refused⟩

/-- An attempt is refused with its edit, whatever becomes of the donors. These are replaced also by
a search that finds none. -/
theorem Chance.refused_edited_iff {attempt : Chance σ Attempt} {source : σ} :
    (Attempt.edited <$> attempt).Refused source ↔
      ∃ came final, attempt source = .ok came final ∧ came.edited.applied = false := by
  rw [map_eq_pure_bind]
  exact refused_bind_iff Attempt.edited fun _ => rfl

variable [Source σ]

namespace Engine

variable {engine : Engine} {corpus : Corpus} {tree : Tree} {source : σ} {held : List Candidate}

/-- What makes a strategy leave a tree as it is on the source. -/
inductive Refuses (engine : Engine) (corpus : Corpus) (tree : Tree) (source : σ) :
    Strategy → Prop where
  /-- The tree is a text, which has no node to grow afresh. -/
  | bare (octets : Bytes) (leaf : tree = .text octets) :
      Refuses engine corpus tree source .replaceNode
  /-- The symbol of the node that is chosen does not grow at the depth of the node. -/
  | ungrown (site : Candidate) (symbol : Symbol) (children : List Tree) (final : σ)
      (selected : Candidate.select (engine.sites tree).nodes source =
        .ok (some site) (Source.after source 1))
      (found : tree.at? site.path = some (.expansion symbol children))
      (failed : engine.grow symbol site.depth (Source.after source 1) = .ok none final) :
      Refuses engine corpus tree source .replaceNode
  /-- No donor is found. -/
  | unpaired (nothing : NoDonor engine corpus tree false source) :
      Refuses engine corpus tree source .splice
  /-- There is no repetition to choose. -/
  | unchosen (nothing : Candidate.Weightless (engine.sites tree).repetitions) :
      Refuses engine corpus tree source .repeatMutator
  /-- The repetition that is chosen is edited in a mode that inserts, and all of the growths of
  the run fail. -/
  | unstaged (site : Candidate) (symbol element : Symbol) (children : List Tree) (position : Nat)
      (reached final : σ) (outcomes : List (Option Tree))
      (selected : Candidate.select (engine.sites tree).repetitions source =
        .ok (some site) (Source.after source 1))
      (found : tree.at? site.path = some (.expansion symbol children))
      (carried : symbol.element? = some element)
      (drawn : Chance.position children.length (Source.after source 1) = .ok position reached)
      (inserts : (RepeatMode.pick (Chance.unitFraction (Source.next64 reached).1)
        engine.settings.repeatModes).inserts = true)
      (counted : site.depth < Depth.greatest)
      (run : engine.Stages element (site.depth + 1) (Source.after reached 1) outcomes final)
      (enough : outcomes.length ≤ engine.patience)
      (failed : ∀ grown ∈ outcomes, grown = none) :
      Refuses engine corpus tree source .repeatMutator
  /-- No donor is found among repetitions. -/
  | unmatched (nothing : NoDonor engine corpus tree true source) :
      Refuses engine corpus tree source .repeatSplice

/-! ## The splices -/

/-- A search is refused exactly if it finds no donor, if whatever it goes on with makes an edit.
Both splices are such searches. -/
theorem search_refused_iff {only : Bool}
    {next : Candidate → Symbol → List Tree → Tree → Chance σ Edited}
    (makes : ∀ pairing : Pairing, pairing.Chosen engine corpus tree only source →
      ∃ attempt final, engine.search corpus only tree held next source = .ok attempt final ∧
        attempt.edited.applied = true) :
    (Attempt.edited <$> engine.search corpus only tree held next).Refused source ↔
      NoDonor engine corpus tree only source := by
  rw [Chance.refused_edited_iff]
  constructor
  · rintro ⟨attempt, final, ended, refused⟩
    by_contra something
    obtain ⟨pairing, chosen⟩ := exists_chosen something
    obtain ⟨other, reached, made, applied⟩ := makes pairing chosen
    cases ended.symm.trans made
    cases refused.symm.trans applied
  · intro nothing
    obtain ⟨attempt, final, ended, unchanged⟩ := search_of_noDonor nothing
    exact ⟨attempt, final, ended, congrArg Edited.applied unchanged⟩

/-- A splice is refused exactly if it finds no donor: with a pairing there is nothing left that
could fail. -/
theorem splice_refused_iff :
    (Attempt.edited <$> engine.splice corpus (engine.sites tree) tree held).Refused source ↔
      NoDonor engine corpus tree false source := by
  rw [splice_eq]
  apply search_refused_iff
  intro pairing chosen
  obtain ⟨attempt, final, ended, made⟩ := splice_of_chosen held chosen
  rw [splice_eq] at ended
  exact ⟨attempt, final, ended, congrArg Edited.applied made⟩

/-- A copy is refused exactly if it finds no donor. A run that happens to be empty is an edit all
the same. -/
theorem repeatSplice_refused_iff :
    (Attempt.edited <$> engine.repeatSplice corpus (engine.sites tree) tree held).Refused source ↔
      NoDonor engine corpus tree true source := by
  rw [repeatSplice_eq]
  apply search_refused_iff
  intro pairing chosen
  obtain ⟨attempt, final, position, count, start, copied, ended, -, made⟩ :=
    repeatSplice_of_chosen held chosen
  rw [repeatSplice_eq] at ended
  exact ⟨attempt, final, ended, congrArg Edited.applied made⟩

/-! ## Growing a node afresh -/

/-- A text is a tree without nodes to choose, and the only one, as the root of every other tree is
within reach. -/
theorem nodes_eq_nil_iff : (engine.sites tree).nodes = [] ↔ ∃ octets, tree = .text octets := by
  cases tree with
  | text octets =>
    constructor
    · intro _
      exact ⟨octets, rfl⟩
    · intro _
      rfl
  | expansion symbol children =>
    constructor
    · intro none
      cases none
    · rintro ⟨octets, same⟩
      cases same

/-- With a node that is chosen a new growth is refused exactly if it fails. One that is abandoned is
neither refused nor an edit. -/
theorem replaceNode_refused_of_selected {site : Candidate} {symbol : Symbol}
    {children : List Tree}
    (selected : Candidate.select (engine.sites tree).nodes source =
      .ok (some site) (Source.after source 1))
    (found : tree.at? site.path = some (.expansion symbol children)) :
    (engine.replaceNode (engine.sites tree) tree).Refused source ↔
      ∃ final, engine.grow symbol site.depth (Source.after source 1) = .ok none final := by
  rw [replaceNode, Chance.refused_after_iff selected]
  simp only [found, Option.bind_some, Tree.symbol?]
  let read (grown : Option Tree) : Edited :=
    grown.elim (.unchanged tree) fun new => .changed (tree.putAt site.path new)
  rw [Chance.refused_bind_iff read (by rintro (_ | new) <;> rfl)]
  constructor
  · rintro ⟨grown, final, ended, refused⟩
    cases grown with
    | none => exact ⟨final, ended⟩
    | some grown => cases refused
  · rintro ⟨final, failed⟩
    exact ⟨none, final, failed, rfl⟩

/-- To grow a node afresh is refused exactly if the tree is a text or the node that is chosen does
not grow. Candidates without any weight are a fault here, and no refusal. -/
theorem replaceNode_refused_iff :
    (Attempt.edited <$> engine.apply corpus .replaceNode (engine.sites tree) tree held).Refused
        source ↔ Refuses engine corpus tree source .replaceNode := by
  by_cases bare : (engine.sites tree).nodes = []
  · obtain ⟨octets, leaf⟩ := nodes_eq_nil_iff.mp bare
    simp only [apply, bare, List.isEmpty_nil, ↓reduceIte]
    constructor
    · intro _
      exact .bare octets leaf
    · intro _
      exact ⟨_, _, rfl, rfl⟩
  · have regrows :
        Attempt.edited <$> engine.apply corpus .replaceNode (engine.sites tree) tree held =
          (engine.replaceNode (engine.sites tree) tree : Chance σ Edited) := by
      rw [← List.isEmpty_iff] at bare
      simp [apply, bare]
    rw [regrows]
    constructor
    · intro refused
      by_cases weightless : Candidate.Weightless (engine.sites tree).nodes
      · -- To choose a node is a fault here, and no refusal.
        rw [replaceNode,
          Chance.refused_after_iff (Candidate.select_of_weightless weightless source)] at refused
        obtain ⟨edited, final, ended, -⟩ := refused
        cases ended
      · obtain ⟨site, member, selected⟩ := Candidate.exists_select weightless source
        obtain ⟨-, -, symbol, children, found⟩ := node_of_mem_nodes member
        obtain ⟨final, failed⟩ := (replaceNode_refused_of_selected selected found).mp refused
        exact .ungrown site symbol children final selected found failed
    · intro refuses
      cases refuses with
      | bare octets leaf => exact absurd (nodes_eq_nil_iff.mpr ⟨octets, leaf⟩) bare
      | ungrown site symbol children final selected found failed =>
        exact (replaceNode_refused_of_selected selected found).mpr ⟨final, failed⟩

/-! ## Editing a repetition -/

/-- In a mode that inserts nothing is staged exactly if all growths of a run fail that the patience
is enough for. -/
theorem staging_eq_nil_iff {element : Symbol} {depth : Nat} {mode : RepeatMode} {source : σ}
    (inserts : mode.inserts = true) :
    (∃ final, engine.staging element depth mode source = .ok [] final) ↔
      depth < Depth.greatest ∧ ∃ outcomes final,
        engine.Stages element (depth + 1) source outcomes final ∧
          outcomes.length ≤ engine.patience ∧ ∀ grown ∈ outcomes, grown = none := by
  by_cases counted : depth < Depth.greatest
  · have staging :
        (engine.staging element depth mode source) =
          engine.stage element (depth + 1) engine.patience source := by
      simp only [staging, inserts, ↓reduceIte, Depth.below, counted]
      rfl
    rw [staging]
    constructor
    · rintro ⟨final, ended⟩
      obtain ⟨outcomes, run, enough, nothing⟩ := stages_of_stage_eq_ok ended
      exact ⟨counted, outcomes, final, run, enough, List.filterMap_eq_nil_iff.mp nothing.symm⟩
    · rintro ⟨-, outcomes, final, run, enough, failed⟩
      have nothing : outcomes.reduceOption = [] := List.filterMap_eq_nil_iff.mpr failed
      have ended := stage_eq_ok_of_stages run enough
      rw [nothing] at ended
      exact ⟨final, ended⟩
  · constructor
    · rintro ⟨final, ended⟩
      simp only [staging, inserts, ↓reduceIte, Depth.below, counted] at ended
      cases ended
    · rintro ⟨below, -⟩
      exact absurd below counted

/-- The edit of a repetition is refused exactly if it is to insert and all growths fail. A mode that
only deletes is never refused, even with nothing to delete. -/
theorem editRepetition_refused_iff {symbol element : Symbol} {children : List Tree}
    (carried : symbol.element? = some element) {depth position : Nat}
    (inside : position ≤ children.length) (mode : RepeatMode) (source : σ) :
    (engine.editRepetition (.expansion symbol children) depth position mode).Refused source ↔
      mode.inserts = true ∧ depth < Depth.greatest ∧ ∃ outcomes final,
        engine.Stages element (depth + 1) source outcomes final ∧
          outcomes.length ≤ engine.patience ∧ ∀ grown ∈ outcomes, grown = none := by
  rw [editRepetition_eq engine carried]
  constructor
  · rintro ⟨edited, final, ended, unchanged⟩
    cases staged : engine.staging element depth mode source with
    | error fault between =>
      rw [bind_of_error staged] at ended
      cases ended
    | ok elements between =>
      rw [bind_of_ok staged] at ended
      by_cases refused : mode.inserts = true ∧ elements = []
      · obtain ⟨inserts, rfl⟩ := refused
        exact ⟨inserts, (staging_eq_nil_iff inserts).mp ⟨between, staged⟩⟩
      · have nothing : mode.inserts = false → elements = [] := by
          have known := staging_ends engine element depth mode source
          rw [staged] at known
          exact known.1
        obtain ⟨count, -, exchanged⟩ := exchange_eq engine inside nothing between
        rw [if_neg refused, bind_of_ok exchanged] at ended
        cases ended
        cases unchanged
  · rintro ⟨inserts, failed⟩
    obtain ⟨between, staged⟩ := (staging_eq_nil_iff inserts).mpr failed
    refine ⟨.unchanged (.expansion symbol children), between, ?_, rfl⟩
    rw [bind_of_ok staged, if_pos ⟨inserts, rfl⟩]
    rfl

/-- With a repetition that is chosen and a position that is drawn the attempt is refused exactly if
the edit is. The mode is picked by the word behind the position. -/
theorem repeatMutator_refused_of_selected {site : Candidate} {symbol : Symbol}
    {children : List Tree} {position : Nat} {reached : σ}
    (selected : Candidate.select (engine.sites tree).repetitions source =
      .ok (some site) (Source.after source 1))
    (found : tree.at? site.path = some (.expansion symbol children))
    (drawn : Chance.position children.length (Source.after source 1) = .ok position reached) :
    (engine.repeatMutator (engine.sites tree) tree).Refused source ↔
      (engine.editRepetition (.expansion symbol children) site.depth position
        (RepeatMode.pick (Chance.unitFraction (Source.next64 reached).1)
          engine.settings.repeatModes)).Refused (Source.after reached 1) := by
  have fraction : Chance.fraction reached =
      .ok (Chance.unitFraction (Source.next64 reached).1) (Source.after reached 1) := rfl
  rw [repeatMutator, Chance.refused_after_iff selected]
  simp only [found, Tree.children]
  rw [Chance.refused_after_iff drawn, Chance.refused_after_iff fraction]
  exact Chance.refused_bind_iff (Edited.within · tree site.path) fun _ => rfl

/-- To edit a repetition is refused exactly if there is none to choose or the one that is chosen is
edited in a mode that inserts and all of the growths fail. -/
theorem repeatMutator_refused_iff :
    (Attempt.edited <$> engine.apply corpus .repeatMutator (engine.sites tree) tree held).Refused
        source ↔ Refuses engine corpus tree source .repeatMutator := by
  have edits :
      Attempt.edited <$> engine.apply corpus .repeatMutator (engine.sites tree) tree held =
        (engine.repeatMutator (engine.sites tree) tree : Chance σ Edited) := by
    simp [apply]
  rw [edits]
  constructor
  · intro refused
    by_cases weightless : Candidate.Weightless (engine.sites tree).repetitions
    · exact .unchosen weightless
    · obtain ⟨site, member, selected⟩ := Candidate.exists_select weightless source
      obtain ⟨-, -, symbol, children, found, repetition⟩ := node_of_mem_repetitions member
      obtain ⟨element, carried⟩ := Option.isSome_iff_exists.mp repetition
      obtain ⟨position, reached, drawn, before⟩ :=
        (Chance.position_ends children.length).exists_ok (Source.after source 1)
      have inside : position ≤ children.length := by omega
      rw [repeatMutator_refused_of_selected selected found drawn,
        editRepetition_refused_iff carried inside] at refused
      obtain ⟨inserts, counted, outcomes, final, run, enough, failed⟩ := refused
      exact .unstaged site symbol element children position reached final outcomes selected found
        carried drawn inserts counted run enough failed
  · intro refuses
    cases refuses with
    | unchosen nothing =>
      rw [repeatMutator, Chance.refused_after_iff (Candidate.select_of_weightless nothing source)]
      exact ⟨_, _, rfl, rfl⟩
    | unstaged site symbol element children position reached final outcomes selected found carried
        drawn inserts counted run enough failed =>
      obtain ⟨other, later, again, before⟩ :=
        (Chance.position_ends children.length).exists_ok (Source.after source 1)
      cases drawn.symm.trans again
      have inside : position ≤ children.length := by omega
      rw [repeatMutator_refused_of_selected selected found drawn,
        editRepetition_refused_iff carried inside]
      exact ⟨inserts, counted, outcomes, final, run, enough, failed⟩

/-! ## All strategies -/

/-- Why an attempt with a strategy may be abandoned. -/
def AbandonsBy (engine : Engine) (tree : Tree) : Strategy → Fault → Prop
  | .replaceNode, .noSelectableNode => ¬ 0 < engine.settings.depthDecay
  | .replaceNode, .patienceExhausted | .repeatMutator, .patienceExhausted => True
  | .replaceNode, .depthUncountable | .repeatMutator, .depthUncountable =>
    Depth.greatest ≤ engine.grammar.maxDepth ∨ Depth.greatest ≤ tree.innerHeight
  | _, _ => False

/-- An attempt is abandoned for one of these causes only. Those of growth are shared by the
strategies that grow something, and neither of the two splices has any. -/
theorem abandonsBy_of_error {strategy : Strategy} {fault : Fault} {final : σ}
    (ended : engine.apply corpus strategy (engine.sites tree) tree held source =
      .error fault final) :
    engine.AbandonsBy tree strategy fault := by
  cases strategy with
  | replaceNode =>
    have known := apply_ends engine corpus .replaceNode tree held source
    rw [ended] at known
    cases fault with
    | patienceExhausted => trivial
    | depthUncountable => exact known
    | noSelectableNode =>
      obtain ⟨inhabited, weightless⟩ := known
      intro above
      have weighted := isPositive_total_nodes (Double.isPositive_of_pos above) inhabited
      rw [weighted.beq_zero] at weightless
      cases weightless
    | _ => cases known
  | splice =>
    obtain ⟨attempt, reached, answered, -⟩ := (splice_ends engine corpus tree held).exists_ok source
    cases answered.symm.trans ended
  | repeatMutator =>
    have stopped : engine.repeatMutator (engine.sites tree) tree source = .error fault final := by
      cases edits : engine.repeatMutator (engine.sites tree) tree source with
      | ok edited between =>
        rw [apply, bind_of_ok edits] at ended
        cases ended
      | error cause between =>
        rw [apply, bind_of_error edits] at ended
        cases ended
        rfl
    have known := repeatMutator_ends engine corpus tree source
    rw [stopped] at known
    rcases known with abandons | ⟨rfl, deep⟩
    · cases fault with
      | patienceExhausted => trivial
      | depthUncountable => exact .inl abandons
      | _ => cases abandons
    · exact .inr deep
  | repeatSplice =>
    obtain ⟨attempt, reached, answered, -⟩ :=
      (repeatSplice_ends engine corpus tree held).exists_ok source
    cases answered.symm.trans ended

/-- An attempt is refused exactly for the causes that its strategy has, and abandoned for few
others. With a refusal the tree is handed back as it is. What is chosen is one of the candidates,
and they stand for exactly the inner nodes within reach, of the symbol that is wanted where a donor
is, so that nothing that is chosen is missed. -/
theorem apply_refused_iff (engine : Engine) (corpus : Corpus) (tree : Tree)
    (held : List Candidate) (source : σ) :
    (∀ strategy,
      (Attempt.edited <$> engine.apply corpus strategy (engine.sites tree) tree held).Refused
        source ↔ engine.Refuses corpus tree source strategy) ∧
    (∀ strategy attempt final,
      engine.apply corpus strategy (engine.sites tree) tree held source = .ok attempt final →
      attempt.edited.applied = false → attempt.edited.tree = tree) ∧
    (∀ strategy fault final,
      engine.apply corpus strategy (engine.sites tree) tree held source = .error fault final →
      engine.AbandonsBy tree strategy fault) ∧
    (∀ candidates site final, Candidate.select candidates source = .ok (some site) final →
      site ∈ candidates) ∧
    (∀ only path, path ∈ ((engine.sites tree).eligible only).map Candidate.path ↔
      path.length ≤ engine.settings.maxDepth ∧
        ∃ symbol children, tree.at? path = some (.expansion symbol children) ∧
          (only = true → symbol.isRepetition = true)) ∧
    (∀ only symbol depth other path,
      path ∈ ((engine.donors only symbol depth).collect other).map Candidate.path ↔
        path.length ≤ depth ∧
          ∃ label grandchildren, other.at? path = some (.expansion label grandchildren) ∧
            symbol.id = label.id ∧ (only = true → label.isRepetition = true)) := by
  refine ⟨?_, ?_, ?_, ?_, ?_, ?_⟩
  · intro strategy
    cases strategy with
    | replaceNode => exact replaceNode_refused_iff
    | splice =>
      apply splice_refused_iff.trans
      constructor
      · intro nothing
        exact .unpaired nothing
      · intro refuses
        cases refuses with
        | unpaired nothing => exact nothing
    | repeatMutator => exact repeatMutator_refused_iff
    | repeatSplice =>
      apply repeatSplice_refused_iff.trans
      constructor
      · intro nothing
        exact .unmatched nothing
      · intro refuses
        cases refuses with
        | unmatched nothing => exact nothing
  · intro strategy attempt final ended refused
    have turns := apply_ends engine corpus strategy tree held source
    rw [ended] at turns
    exact turns.tree_of_refused refused
  · intro strategy fault final ended
    exact abandonsBy_of_error ended
  · intro candidates site final selected
    exact Candidate.mem_of_select selected
  · intro only path
    exact mem_eligible_iff
  · intro only symbol depth other path
    exact mem_donors_iff

/-- An engine for numerals of which no digit grows, as no node may lie below the root. -/
def ofNoDigits : Engine :=
  { ofDigits with grammar := { Grammar.numerals with maxDepth := 0 } }

/-- An engine that weighs the levels of a numeral against each other. -/
def ofOpposites : Engine :=
  { ofDigits with settings := { ofDigits.settings with depthDecay := -1 } }

/-- There is no node to grow afresh in a text and no donor in an empty corpus. A digit that does not
grow is not inserted. The levels of a numeral of one digit may outweigh each other, and then the
attempt to grow a node afresh is abandoned. -/
theorem apply_refused_iff_digits :
    ∃ source : Script,
      (Attempt.edited <$> ofDigits.apply .unbounded .replaceNode (ofDigits.sites (.text [48]))
        (.text [48]) []).Refused source ∧
      (Attempt.edited <$> ofDigits.apply .unbounded .splice (ofDigits.sites (numeral [48]))
        (numeral [48]) []).Refused source ∧
      ofNoDigits.Refuses .unbounded (numeral [48]) source .repeatMutator ∧
      ofOpposites.AbandonsBy (numeral [48]) .replaceNode .noSelectableNode := by
  let source : Script :=
    { words := [0, 0, 18446744073709551615, 18446744073709551615], generator := .splitMix ⟨0⟩ }
  have unedited :
      (Attempt.edited <$> ofNoDigits.apply .unbounded .repeatMutator
        (ofNoDigits.sites (numeral [48])) (numeral [48]) []).Refused source := ⟨_, _, rfl, rfl⟩
  have deserted : NoDonor ofDigits .unbounded (numeral [48]) false source := .deserted rfl
  have abandoned : ofOpposites.apply .unbounded .replaceNode (ofOpposites.sites (numeral [48]))
      (numeral [48]) [] source = .error .noSelectableNode source := rfl
  use source
  constructor
  · exact ((apply_refused_iff ofDigits .unbounded (.text [48]) [] source).1 .replaceNode).mpr
      (.bare [48] rfl)
  constructor
  · exact ((apply_refused_iff ofDigits .unbounded (numeral [48]) [] source).1 .splice).mpr
      (.unpaired deserted)
  constructor
  · exact ((apply_refused_iff ofNoDigits .unbounded (numeral [48]) [] source).1
      .repeatMutator).mp unedited
  · exact (apply_refused_iff ofOpposites .unbounded (numeral [48]) [] source).2.2.1 .replaceNode
      _ _ abandoned

end Engine

end Graft
