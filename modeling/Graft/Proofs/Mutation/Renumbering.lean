import Graft.Proofs.Lockstep
import Graft.Proofs.Mutation.Names
import Graft.Proofs.Grammar.Rearrangement
import Graft.Proofs.Tree.Twins
import Graft.Random.SplitMix

/-!
# Numbers of symbols are not seen

Two mutators that differ in nothing but the numbering of their grammars' symbols do
the same, step by step. What one of them grows, chooses, exchanges or copies is the
twin of what the other does, both draw the same words and note the same events, and
twins have one sample. So the order in which a grammar's names are declared is not
seen in any sample.
-/

namespace Graft

open Graft.Random

variable {σ : Type}

/-! ## Growth -/

namespace Grammar

variable {left right : Grammar}

/-- Rows that say the same grow in lockstep if twins do. The induction is on the two rows together,
part by part. -/
theorem growRow_lockstep (renumbered : left.Renumbered right)
    {grow otherGrow : Symbol → Chance σ (Option Tree)}
    (grows : ∀ symbol other, left.Twins right symbol other →
      Lockstep (Option.Rel (Tree.Twins left right)) (grow symbol) (otherGrow other))
    {parts others : List Part}
    (rows : List.Forall₂ (Part.Matches (SameName left.names right.names)) parts others) :
    Lockstep (Option.Rel (List.Forall₂ (Tree.Twins left right)))
      (left.growRow grow parts) (right.growRow otherGrow others) := by
  induction rows with
  | nil => exact .pure (.some .nil)
  | cons first _ inductionHypothesis =>
    cases first with
    | literal octets =>
      refine inductionHypothesis.bind fun grown otherGrown together => .pure ?_
      exact rel_map together fun _ _ rest => .cons (Tree.twins_text octets) rest
    | symbol numbers =>
      obtain ⟨symbol, other, placed, otherPlaced, twins⟩ := renumbered.twins_of_sameName numbers
      simp only [growRow, placed, otherPlaced]
      refine (grows symbol other twins).bind fun tree otherTree together => ?_
      cases together with
      | none => exact .pure .none
      | some trees =>
        refine inductionHypothesis.bind fun grown otherGrown together => .pure ?_
        exact rel_map together fun _ _ rest => .cons trees rest

variable [Source σ]

/-- Runs grow in lockstep if their elements do. The induction is on the patience, and the draw
between two elements is the same in both. -/
theorem growRun_lockstep (probability : Float) {grow otherGrow : Chance σ (Option Tree)}
    (grows : Lockstep (Option.Rel (Tree.Twins left right)) grow otherGrow) (patience : Nat) :
    Lockstep (Option.Rel (List.Forall₂ (Tree.Twins left right)))
      (growRun probability grow patience) (growRun probability otherGrow patience) := by
  induction patience with
  | zero => exact .throw _
  | succ patience inductionHypothesis =>
    refine grows.bind fun tree otherTree together => ?_
    cases together with
    | none => exact .pure .none
    | some trees =>
      refine .bind_same _ fun fraction => ?_
      split
      · exact .pure (.some (.cons trees .nil))
      · refine inductionHypothesis.bind fun grown otherGrown together => .pure ?_
        exact rel_map together fun _ _ rest => .cons trees rest

/-- Twins grow in lockstep, into twins. The induction is on the budget; which of its alternatives a
symbol takes is drawn by place, and the places correspond. -/
theorem growNode_lockstep (renumbered : left.Renumbered right) (patience budget : Nat)
    {symbol other : Symbol} (twins : left.Twins right symbol other) :
    Lockstep (Option.Rel (Tree.Twins left right))
      (left.growNode patience budget symbol : Chance σ _)
      (right.growNode patience budget other) := by
  induction budget generalizing symbol other with
  | zero =>
    simp only [growNode, renumbered.maxDepth]
    split
    · exact .pure .none
    · exact .throw _
  | succ budget inductionHypothesis =>
    obtain ⟨production, twin, produced, otherProduced, expandAlike⟩ :=
      renumbered.productions symbol other twins
    rw [growNode, growNode, produced, otherProduced]
    cases expandAlike with
    | alternatives each =>
      cases each with
      | nil => exact .pure .none
      | cons first rest =>
        have rows := List.Forall₂.cons first rest
        dsimp only
        rw [← rows.length_eq]
        refine .bind_same _ fun place => ?_
        obtain ⟨found, otherFound⟩ | ⟨row, otherRow, found, otherFound, together⟩ :=
          rel_taken_apart (rel_getElem? rows place)
        · rw [found, otherFound]
          exact .throw _
        · rw [found, otherFound]
          refine (growRow_lockstep renumbered (fun _ _ => inductionHypothesis) together).bind
            fun grown otherGrown children => .pure ?_
          exact rel_map children fun _ _ => Tree.twins_expansion twins
    | repetition numbers =>
      obtain ⟨absent, otherAbsent⟩ | ⟨element, otherElement, carried, otherCarried, elements⟩ :=
        rel_taken_apart (renumbered.element? twins)
      · simp only [absent, otherAbsent]
        exact .pure .none
      · simp only [carried, otherCarried, renumbered.repeatProbability]
        refine (growRun_lockstep _ (inductionHypothesis elements) patience).bind
          fun grown otherGrown children => .pure ?_
        exact rel_map children fun _ _ => Tree.twins_expansion twins

/-- Twins grow in lockstep at every depth, into twins. Each is found in its own table by its own
number. -/
theorem grow_lockstep (renumbered : left.Renumbered right) (patience : Nat)
    {symbol other : Symbol} (twins : left.Twins right symbol other) (depth : Nat) :
    Lockstep (Option.Rel (Tree.Twins left right)) (left.grow patience symbol depth : Chance σ _)
      (right.grow patience other depth) := by
  obtain ⟨owned, otherOwned, -⟩ := renumbered.owned twins
  rw [Owns] at owned otherOwned
  simp only [grow, owned, otherOwned, beq_self_eq_true, ↓reduceIte, renumbered.maxDepth]
  exact growNode_lockstep renumbered patience _ twins

end Grammar

/-! ## Edits -/

/-- Two engines that differ in nothing but the numbers of their grammars' symbols. -/
structure Engine.Renumbered (engine other : Engine) : Prop where
  grammar : engine.grammar.Renumbered other.grammar
  root : engine.grammar.Twins other.grammar engine.root other.root
  settings : engine.settings = other.settings
  patience : engine.patience = other.patience

/-- Trees that are twins under the grammars of two engines. -/
abbrev Engine.Twins (engine other : Engine) : Tree → Tree → Prop :=
  Tree.Twins engine.grammar other.grammar

/-- Edits that leave twins, and that are both refused or both made. -/
structure Edited.Twins (engine other : Engine) (edited otherEdited : Edited) : Prop where
  tree : engine.Twins other edited.tree otherEdited.tree
  applied : edited.applied = otherEdited.applied

/-- Edits of twins that are refused leave them as they are, and so leave twins. -/
theorem Edited.twins_unchanged {engine other : Engine} {tree otherTree : Tree}
    (twins : engine.Twins other tree otherTree) :
    Edited.Twins engine other (.unchanged tree) (.unchanged otherTree) :=
  ⟨twins, rfl⟩

/-- Twins may be what edits make, of whatever trees these are edits. -/
theorem Edited.twins_changed {engine other : Engine} {tree otherTree : Tree}
    (twins : engine.Twins other tree otherTree) :
    Edited.Twins engine other (.changed tree) (.changed otherTree) :=
  ⟨twins, rfl⟩

/-- Edits of nodes that correspond do so as edits of twins that have the nodes at one path. The flag
of the edit is that of the node, on both sides. -/
theorem Edited.Twins.within {engine other : Engine} {edited otherEdited : Edited}
    (edits : Edited.Twins engine other edited otherEdited) {tree otherTree : Tree}
    (twins : engine.Twins other tree otherTree) (path : Path) :
    Edited.Twins engine other (edited.within tree path) (otherEdited.within otherTree path) :=
  ⟨twins.putAt edits.tree path, edits.applied⟩

/-- Attempts whose edits correspond. The donors that they leave are not compared, as no later
attempt reads them. -/
def Engine.Attempts (engine other : Engine) (attempt otherAttempt : Attempt) : Prop :=
  attempt.edited.Twins engine other otherAttempt.edited

/-- Two corpora of twins, in one order. -/
def Corpus.Twins (left right : Grammar) (corpus other : Corpus) : Prop :=
  List.Forall₂ (Tree.Twins left right) corpus.trees.toList other.trees.toList

/-- Elements are put in at the same place in both, since the rows are of one length. -/
theorem Engine.insertAfter_lockstep {engine other : Engine} (position : Nat)
    {elements otherElements children others : List Tree}
    (inserted : List.Forall₂ (engine.Twins other) elements otherElements)
    (rows : List.Forall₂ (engine.Twins other) children others) :
    Lockstep (List.Forall₂ (engine.Twins other))
      (Engine.insertAfter position elements children : Chance σ _)
      (Engine.insertAfter position otherElements others) := by
  simp only [Engine.insertAfter, rows.length_eq]
  generalize (if position < others.length then position + 1 else position) = place
  split
  · exact .throw _
  · exact .pure (List.rel_append (List.rel_append (List.forall₂_take _ rows) inserted)
      (List.forall₂_drop _ rows))

/-- Twins come of twins in which elements are put in at the same place. Both edits of repetitions
end with this step. -/
theorem Engine.insertUnder_lockstep {engine other : Engine} (position : Nat) {symbol twin : Symbol}
    (symbols : engine.grammar.Twins other.grammar symbol twin)
    {elements otherElements children others : List Tree}
    (inserted : List.Forall₂ (engine.Twins other) elements otherElements)
    (rows : List.Forall₂ (engine.Twins other) children others) :
    Lockstep (Edited.Twins engine other)
      (do return .changed (.expansion symbol (← insertAfter position elements children)) :
        Chance σ Edited)
      (do return .changed (.expansion twin (← insertAfter position otherElements others))) := by
  refine (insertAfter_lockstep position inserted rows).bind fun placed otherPlaced together => ?_
  exact .pure (Edited.twins_changed (Tree.twins_expansion symbols together))

variable [Source σ]

/-- Twins are drawn from corpora of twins. As these are of one size, the same word leads to the same
place. -/
theorem Corpus.random_lockstep {left right : Grammar} {corpus other : Corpus}
    (corpora : Corpus.Twins left right corpus other) :
    Lockstep (Option.Rel (Tree.Twins left right)) (corpus.random : Chance σ _) other.random := by
  have sizes : corpus.size = other.size := corpora.length_eq
  simp only [random, sizes]
  split
  · exact .pure .none
  · refine .bind_same _ fun place => .pure ?_
    have drawn := rel_getElem? corpora place
    rw [Array.getElem?_toList, Array.getElem?_toList] at drawn
    exact drawn

namespace Engine.Renumbered

variable {engine other : Engine}

/-- Both look for candidates alike, as queries are made of settings and name no symbol. -/
theorem query_eq (engines : engine.Renumbered other) (maxDepth : Nat) :
    engine.query maxDepth = other.query maxDepth := by
  rw [query, query, engines.settings]

/-- The candidates of twins are the same. Candidates tell paths, depths and weights, and no numbers
of symbols. -/
theorem sites_eq (engines : engine.Renumbered other) {tree otherTree : Tree}
    (twins : engine.Twins other tree otherTree) : engine.sites tree = other.sites otherTree := by
  rw [sites, sites, engines.query_eq, engines.settings]
  exact congrArg₂ Sites.mk
    (Query.collect_twins engines.grammar (other.query other.settings.maxDepth) .none twins)
    (Query.collect_twins engines.grammar
      { other.query other.settings.maxDepth with repetitionsOnly := true } .none twins)

/-- Twins grow in lockstep, into twins, with the patience that the engines share. -/
theorem grow_lockstep (engines : engine.Renumbered other) {symbol twin : Symbol}
    (twins : engine.grammar.Twins other.grammar symbol twin) (depth : Nat) :
    Lockstep (Option.Rel (engine.Twins other)) (engine.grow symbol depth : Chance σ _)
      (other.grow twin depth) := by
  rw [Engine.grow, Engine.grow, engines.patience]
  exact Grammar.grow_lockstep engines.grammar _ twins depth

/-- The same draw decides in both whether a run goes on, for the probability is one of the
settings. -/
theorem goesOn_eq (engines : engine.Renumbered other) :
    (engine.goesOn : Chance σ Bool) = other.goesOn := by
  rw [goesOn, goesOn, engines.settings]

/-- The same draws make runs of one length in both. The induction is on what is available. -/
theorem runLength_eq (engines : engine.Renumbered other) (available : Nat) :
    (engine.runLength available : Chance σ Nat) = other.runLength available := by
  induction available with
  | zero => rfl
  | succ available inductionHypothesis =>
    rw [runLength, runLength, engines.goesOn_eq, inductionHypothesis]

/-- A run is deleted in both, from the same position and of the same length. -/
theorem deleteRun_lockstep (engines : engine.Renumbered other) (position : Nat)
    {children others : List Tree}
    (rows : List.Forall₂ (engine.Twins other) children others) :
    Lockstep (List.Forall₂ (engine.Twins other)) (engine.deleteRun position children : Chance σ _)
      (other.deleteRun position others) := by
  simp only [Engine.deleteRun, rows.length_eq, engines.runLength_eq]
  refine .bind_same _ fun count => ?_
  split
  · exact .throw _
  · exact .pure (List.rel_append (List.forall₂_take _ rows) (List.forall₂_drop _ rows))

/-- Twins are grown until the same draw ends the run. The induction is on the patience. -/
theorem stage_lockstep (engines : engine.Renumbered other) {element twin : Symbol}
    (twins : engine.grammar.Twins other.grammar element twin) (depth patience : Nat) :
    Lockstep (List.Forall₂ (engine.Twins other)) (engine.stage element depth patience : Chance σ _)
      (other.stage twin depth patience) := by
  induction patience with
  | zero => exact .throw _
  | succ patience inductionHypothesis =>
    rw [Engine.stage, Engine.stage, engines.goesOn_eq]
    refine (engines.grow_lockstep twins depth).bind fun grown otherGrown together => ?_
    refine .bind_same _ fun further => ?_
    have first := forall₂_toList together
    split
    · refine inductionHypothesis.bind fun rest otherRest others => .pure ?_
      exact List.rel_append first others
    · exact .pure first

/-- Twins are edited into twins. Symbols that are twins have elements that are, so that the same is
staged in both. -/
theorem editRepetition_lockstep (engines : engine.Renumbered other) {node otherNode : Tree}
    (twins : engine.Twins other node otherNode) (depth position : Nat) (mode : RepeatMode) :
    Lockstep (Edited.Twins engine other)
      (engine.editRepetition node depth position mode : Chance σ _)
      (other.editRepetition otherNode depth position mode) := by
  obtain ⟨octets, rfl, rfl⟩ | ⟨symbol, twin, children, others, rfl, rfl, symbols, rows⟩ :=
    twins.taken_apart
  · exact .pure (Edited.twins_unchanged twins)
  · simp only [Engine.editRepetition]
    obtain ⟨absent, otherAbsent⟩ | ⟨element, otherElement, carried, otherCarried, elements⟩ :=
      rel_taken_apart (engines.grammar.element? symbols)
    · simp only [absent, otherAbsent]
      exact .pure (Edited.twins_unchanged twins)
    · simp only [carried, otherCarried, engines.patience]
      -- A mode that inserts grows first, so the modes begin with different steps.
      cases mode with
      | delete =>
        simp only [RepeatMode.inserts, RepeatMode.deletes, Bool.false_eq_true, Bool.false_and,
          ↓reduceIte, pure_bind]
        refine (engines.deleteRun_lockstep position rows).bind fun kept otherKept remaining => ?_
        exact .pure (Edited.twins_changed (Tree.twins_expansion symbols remaining))
      | deleteThenInsert =>
        simp only [RepeatMode.inserts, RepeatMode.deletes, Bool.true_and, ↓reduceIte]
        refine .bind_same _ fun below => ?_
        refine (engines.stage_lockstep elements below _).bind fun staged otherStaged grown => ?_
        rw [isEmpty_eq_of_forall₂ grown]
        split
        · exact .pure (Edited.twins_unchanged twins)
        · refine (engines.deleteRun_lockstep position rows).bind fun kept otherKept remaining => ?_
          exact insertUnder_lockstep position symbols grown remaining
      | insert =>
        simp only [RepeatMode.inserts, RepeatMode.deletes, Bool.false_eq_true, Bool.true_and,
          ↓reduceIte, pure_bind]
        refine .bind_same _ fun below => ?_
        refine (engines.stage_lockstep elements below _).bind fun staged otherStaged grown => ?_
        rw [isEmpty_eq_of_forall₂ grown]
        split
        · exact .pure (Edited.twins_unchanged twins)
        · exact insertUnder_lockstep position symbols grown rows

/-- A run of twins is copied into twins. The children of donors that are twins correspond place by
place, and so do runs of them. -/
theorem spliceRepetition_lockstep (engines : engine.Renumbered other)
    {node otherNode donor otherDonor : Tree} (twins : engine.Twins other node otherNode)
    (donors : engine.Twins other donor otherDonor) (position donorPosition : Nat) (delete : Bool) :
    Lockstep (Edited.Twins engine other)
      (engine.spliceRepetition node donor position donorPosition delete : Chance σ _)
      (other.spliceRepetition otherNode otherDonor position donorPosition delete) := by
  obtain ⟨octets, rfl, rfl⟩ | ⟨symbol, twin, children, others, rfl, rfl, symbols, rows⟩ :=
    twins.taken_apart
  · exact .pure (Edited.twins_unchanged twins)
  · have available := List.forall₂_drop donorPosition donors.children
    simp only [Engine.spliceRepetition, available.length_eq, engines.runLength_eq]
    refine .optional (engines.deleteRun_lockstep position rows) rows ?_
    intro kept otherKept remaining
    refine .bind_same _ fun count => ?_
    split
    · exact .throw _
    · exact insertUnder_lockstep position symbols (List.forall₂_take count available) remaining

/-- The same donor is chosen among twins. The symbol that it is looked for by is another one on each
side, but the lists of donors are equal. -/
theorem chooseDonor_lockstep (engines : engine.Renumbered other) (query : Query)
    {filter otherFilter : Option Symbol}
    (filters : Option.Rel (engine.grammar.Twins other.grammar) filter otherFilter)
    {tree otherTree : Tree} (twins : engine.Twins other tree otherTree)
    (held otherHeld : List Candidate) :
    Lockstep (fun chosen others => Option.Rel (engine.Twins other) chosen.2 others.2)
      (Engine.chooseDonor { query with filter } tree held : Chance σ _)
      (Engine.chooseDonor { query with filter := otherFilter } otherTree otherHeld) := by
  simp only [Engine.chooseDonor, Query.refilled_eq,
    Query.collect_twins engines.grammar query filters twins]
  refine .bind_same _ fun selected => ?_
  cases selected with
  | none => exact .pure .none
  | some donor => exact .pure (twins.at? donor.path)

section Strategies

variable {corpus otherCorpus : Corpus} {tree otherTree : Tree}

/-- A node of twins is grown afresh into twins, at the path that one choice gives for both. -/
theorem replaceNode_lockstep (engines : engine.Renumbered other) (sites : Sites)
    (twins : engine.Twins other tree otherTree) :
    Lockstep (Edited.Twins engine other) (engine.replaceNode sites tree : Chance σ _)
      (other.replaceNode sites otherTree) := by
  refine .bind_same _ fun selected => ?_
  cases selected with
  | none => exact .throw _
  | some candidate =>
    obtain ⟨found, otherFound⟩ | ⟨symbol, twin, found, otherFound, symbols⟩ :=
      rel_taken_apart (twins.symbol_at? candidate.path)
    · simp only [found, otherFound]
      exact .pure (Edited.twins_unchanged twins)
    · simp only [found, otherFound]
      refine (engines.grow_lockstep symbols candidate.depth).bind ?_
      intro grown otherGrown together
      cases together with
      | none => exact .pure (Edited.twins_unchanged twins)
      | some trees => exact .pure (Edited.twins_changed (twins.putAt trees candidate.path))

/-- Twins from twins of the corpus are put in the place of a node of twins. All three choices come
to the same in both. -/
theorem splice_lockstep (engines : engine.Renumbered other)
    (corpora : Corpus.Twins engine.grammar other.grammar corpus otherCorpus) (sites : Sites)
    (twins : engine.Twins other tree otherTree) (held otherHeld : List Candidate) :
    Lockstep (engine.Attempts other) (engine.splice corpus sites tree held : Chance σ _)
      (other.splice otherCorpus sites otherTree otherHeld) := by
  refine .bind_same _ fun selected => ?_
  cases selected with
  | none => exact .pure (Edited.twins_unchanged twins)
  | some candidate =>
    refine (Corpus.random_lockstep corpora).bind fun donor otherDonor drawn => ?_
    cases drawn with
    | none => exact .pure (Edited.twins_unchanged twins)
    | some donors =>
      obtain ⟨found, otherFound⟩ | ⟨symbol, twin, found, otherFound, symbols⟩ :=
        rel_taken_apart (twins.symbol_at? candidate.path)
      · simp only [found, otherFound]
        exact .pure (Edited.twins_unchanged twins)
      · simp only [found, otherFound, engines.query_eq]
        refine (engines.chooseDonor_lockstep (other.query candidate.depth) (.some symbols)
          donors held otherHeld).bind ?_
        rintro ⟨collected, donor?⟩ ⟨otherCollected, otherDonor?⟩ chosen
        cases chosen with
        | none => exact .pure (Edited.twins_unchanged twins)
        | some new => exact .pure (Edited.twins_changed (twins.putAt new candidate.path))

/-- Elements of a repetition of twins are deleted and inserted alike, as path, position and mode are
the same. -/
theorem repeatMutator_lockstep (engines : engine.Renumbered other) (sites : Sites)
    (twins : engine.Twins other tree otherTree) :
    Lockstep (Edited.Twins engine other) (engine.repeatMutator sites tree : Chance σ _)
      (other.repeatMutator sites otherTree) := by
  refine .bind_same _ fun selected => ?_
  cases selected with
  | none => exact .pure (Edited.twins_unchanged twins)
  | some candidate =>
    obtain ⟨found, otherFound⟩ | ⟨node, otherNode, found, otherFound, nodes⟩ :=
      rel_taken_apart (twins.at? candidate.path)
    · simp only [found, otherFound]
      exact .pure (Edited.twins_unchanged twins)
    · simp only [found, otherFound, nodes.children.length_eq, engines.settings]
      refine .bind_same _ fun position => .bind_same _ fun fraction => ?_
      refine (engines.editRepetition_lockstep nodes candidate.depth position _).bind ?_
      intro edited otherEdited together
      exact .pure (together.within twins candidate.path)

/-- Elements of twins of the corpus are copied into a repetition of twins, chosen and measured by
the same draws. -/
theorem repeatSplice_lockstep (engines : engine.Renumbered other)
    (corpora : Corpus.Twins engine.grammar other.grammar corpus otherCorpus) (sites : Sites)
    (twins : engine.Twins other tree otherTree) (held otherHeld : List Candidate) :
    Lockstep (engine.Attempts other) (engine.repeatSplice corpus sites tree held : Chance σ _)
      (other.repeatSplice otherCorpus sites otherTree otherHeld) := by
  refine .bind_same _ fun selected => ?_
  cases selected with
  | none => exact .pure (Edited.twins_unchanged twins)
  | some candidate =>
    refine (Corpus.random_lockstep corpora).bind fun donor otherDonor drawn => ?_
    cases drawn with
    | none => exact .pure (Edited.twins_unchanged twins)
    | some donors =>
      obtain ⟨found, otherFound⟩ | ⟨node, otherNode, found, otherFound, nodes⟩ :=
        rel_taken_apart (twins.at? candidate.path)
      · simp only [found, otherFound]
        exact .pure (Edited.twins_unchanged twins)
      obtain ⟨octets, rfl, rfl⟩ | ⟨symbol, twin, children, others, rfl, rfl, symbols, rows⟩ :=
        nodes.taken_apart
      · simp only [found, otherFound]
        exact .pure (Edited.twins_unchanged twins)
      · simp only [found, otherFound, engines.query_eq]
        refine (engines.chooseDonor_lockstep
          { other.query candidate.depth with repetitionsOnly := true } (.some symbols)
          donors held otherHeld).bind ?_
        rintro ⟨collected, donor?⟩ ⟨otherCollected, otherDonor?⟩ chosen
        cases chosen with
        | none => exact .pure (Edited.twins_unchanged twins)
        | some copied =>
          simp only [rows.length_eq, copied.children.length_eq, engines.settings]
          refine .bind_same _ fun position => .bind_same _ fun donorPosition =>
            .bind_same _ fun fraction => ?_
          refine (engines.spliceRepetition_lockstep nodes copied position donorPosition _).bind ?_
          intro edited otherEdited together
          exact .pure (together.within twins candidate.path)

/-- Twins are attempted alike by every strategy. Only the donors that are held may differ, which
nothing of the answer depends on. -/
theorem apply_lockstep (engines : engine.Renumbered other)
    (corpora : Corpus.Twins engine.grammar other.grammar corpus otherCorpus) (strategy : Strategy)
    (sites : Sites) (twins : engine.Twins other tree otherTree)
    (held otherHeld : List Candidate) :
    Lockstep (engine.Attempts other) (engine.apply corpus strategy sites tree held : Chance σ _)
      (other.apply otherCorpus strategy sites otherTree otherHeld) := by
  cases strategy with
  | replaceNode =>
    simp only [Engine.apply]
    split
    · exact .pure (Edited.twins_unchanged twins)
    · exact (engines.replaceNode_lockstep sites twins).bind fun _ _ edits => .pure edits
  | splice => exact engines.splice_lockstep corpora sites twins held otherHeld
  | repeatMutator =>
    exact (engines.repeatMutator_lockstep sites twins).bind fun _ _ edits => .pure edits
  | repeatSplice => exact engines.repeatSplice_lockstep corpora sites twins held otherHeld

end Strategies

end Engine.Renumbered

/-! ## Requests -/

/-- Requests in progress on twins. What they have collected and counted may differ. -/
structure Request.Twins (engine other : Engine) (request otherRequest : Request) : Prop where
  working : engine.Twins other request.working otherRequest.working
  changed : request.changed = otherRequest.changed

namespace Engine.Renumbered

variable {engine other : Engine}

/-- An attempt is made on twins alike, with the corpus as it is. Weights of strategies are settings,
and the same in both. -/
theorem attempt_lockstep (engines : engine.Renumbered other) {corpus otherCorpus : Corpus}
    (corpora : Corpus.Twins engine.grammar other.grammar corpus otherCorpus)
    {request otherRequest : Request} (requests : request.Twins engine other otherRequest) :
    Lockstep (fun answer opposite =>
        answer.1.Twins engine other opposite.1 ∧ answer.2 = opposite.2)
      (Mutator.attempt engine corpus request : Trial MutationError σ (Request × Bool))
      (Mutator.attempt other otherCorpus otherRequest) := by
  obtain ⟨working, changed⟩ := requests
  simp only [Mutator.attempt, Request.refresh_eq, engines.sites_eq working, engines.settings]
  refine .bind_same _ fun fraction => ?_
  refine (Lockstep.chance (engines.apply_lockstep corpora _ _ working _ _)).bind ?_
  rintro ⟨⟨tree, applied⟩, donors⟩ ⟨⟨otherTree, _⟩, otherDonors⟩ ⟨twins, rfl⟩
  cases applied with
  | false =>
    refine .bind_same _ fun _ => .pure ⟨⟨twins, ?_⟩, rfl⟩
    exact congrArg (· || false) changed
  | true =>
    refine .pure ⟨⟨twins, ?_⟩, rfl⟩
    exact congrArg (· || true) changed

/-- Attempts one after the other keep requests on twins. The induction is on the attempts that
are left; after each of them both requests go on, or neither does. -/
theorem edit_lockstep (engines : engine.Renumbered other) {corpus otherCorpus : Nat → Corpus}
    (corpora : ∀ moment,
      Corpus.Twins engine.grammar other.grammar (corpus moment) (otherCorpus moment))
    (attempts : Nat) {request otherRequest : Request}
    (requests : request.Twins engine other otherRequest) :
    Lockstep (Request.Twins engine other)
      (Mutator.edit engine corpus request attempts : Trial MutationError σ Request)
      (Mutator.edit other otherCorpus otherRequest attempts) := by
  induction attempts generalizing request otherRequest with
  | zero => exact .pure requests
  | succ attempts inductionHypothesis =>
    rw [Mutator.edit_succ, Mutator.edit_succ, engines.settings]
    refine (engines.attempt_lockstep (corpora attempts) requests).bind ?_
    rintro ⟨next, succeeded⟩ ⟨opposite, _⟩ ⟨together, rfl⟩
    cases succeeded with
    | false => exact inductionHypothesis together
    | true =>
      refine .bind_same _ fun fraction => ?_
      split
      · exact .pure together
      · exact inductionHypothesis together

/-- A symbol grows at last where its twin does, after as many failures. The induction is on the
patience. -/
theorem growUntil_lockstep (engines : engine.Renumbered other) {symbol twin : Symbol}
    (twins : engine.grammar.Twins other.grammar symbol twin) (failures patience : Nat) :
    Lockstep (engine.Twins other)
      (Mutator.growUntil engine symbol failures patience : Trial MutationError σ Tree)
      (Mutator.growUntil other twin failures patience) := by
  induction patience generalizing failures with
  | zero => exact .throw _
  | succ patience inductionHypothesis =>
    rw [Mutator.growUntil, Mutator.growUntil, engines.settings,
      (engines.grammar.owned twins).2.2]
    refine (Lockstep.chance (engines.grow_lockstep twins 0)).bind ?_
    intro grown otherGrown together
    cases together with
    | some trees => exact .pure trees
    | none =>
      dsimp only
      split
      · exact .bind_same _ fun _ => inductionHypothesis _
      · exact inductionHypothesis _

end Engine.Renumbered

namespace Mutator

variable {left right : Mutator}

/-- Mutators that differ in nothing but the numbers of symbols generate the same samples. -/
theorem generateSample_eq (engines : left.engine.Renumbered right.engine) :
    (left.generateSample : Trial MutationError σ Bytes) = right.generateSample := by
  rw [generateSample, generateSample, growAtLast, growAtLast, engines.patience]
  exact Lockstep.map_eq (engines.growUntil_lockstep engines.root 0 _)
    fun _ _ twins => twins.toSample_eq

/-- Answers by edits to requests on twins are the same samples, since the samples of twins spell
names and not numbers. -/
theorem mutateByEdits_lockstep (engines : left.engine.Renumbered right.engine)
    {corpus otherCorpus : Nat → Corpus}
    (corpora : ∀ moment, Corpus.Twins left.engine.grammar right.engine.grammar
      (corpus moment) (otherCorpus moment))
    {bound otherBound : Tree} (twins : left.engine.Twins right.engine bound otherBound) :
    Lockstep (fun answer opposite => answer.2 = opposite.2)
      (left.mutateByEdits corpus bound : Trial MutationError σ (Mutator × Bytes))
      (right.mutateByEdits otherCorpus otherBound) := by
  simp only [mutateByEdits, mutateByEditsWithin, engines.settings]
  refine Lockstep.bind (engines.edit_lockstep corpora _ ⟨twins, rfl⟩) ?_
  rintro edited opposite ⟨working, changed⟩
  rw [changed, working.toSample_eq]
  split
  · exact .pure rfl
  · exact .bind_same _ fun _ => .pure rfl

/-- Mutators that differ in nothing but the numbers of symbols answer requests on twins with
the same samples. -/
theorem mutateAmid_lockstep (engines : left.engine.Renumbered right.engine)
    {corpus otherCorpus : Nat → Corpus}
    (corpora : ∀ moment, Corpus.Twins left.engine.grammar right.engine.grammar
      (corpus moment) (otherCorpus moment))
    {bound otherBound : Tree} (twins : left.engine.Twins right.engine bound otherBound)
    (binds : left.bound = some bound) (otherBinds : right.bound = some otherBound) :
    Lockstep (fun answer opposite => answer.2 = opposite.2)
      (left.mutateAmid corpus : Trial MutationError σ (Mutator × Bytes))
      (right.mutateAmid otherCorpus) := by
  have byEdits : Lockstep (fun answer opposite => answer.2 = opposite.2)
      (Mutator.mutateByEdits
        { left with tally := { left.tally with requests := left.tally.requests + 1 } }
        corpus bound : Trial MutationError σ (Mutator × Bytes))
      (Mutator.mutateByEdits
        { right with tally := { right.tally with requests := right.tally.requests + 1 } }
        otherCorpus otherBound) := by
    refine mutateByEdits_lockstep ?engines ?corpora ?twins
    case engines => exact engines
    case corpora => exact corpora
    case twins => exact twins
  rw [mutateAmid_of_bound corpus binds, mutateAmid_of_bound otherCorpus otherBinds,
    engines.settings]
  refine .bind_same _ fun fraction => ?_
  refine .optional (Lockstep.chance (engines.grow_lockstep engines.root 0)) .none ?_
  intro grown otherGrown together
  cases together with
  | none => exact byEdits
  | some trees => exact .bind_same _ fun _ => .pure trees.toSample_eq

end Mutator

/-! ## What is seen -/

/-- The trees of a corpus are what a grammar reads samples as, one by one. -/
def Corpus.ReadFrom (grammar : Grammar) (samples : List Bytes) (corpus : Corpus) : Prop :=
  List.Forall₂ (fun sample tree => grammar.readSample sample = .ok tree) samples
    corpus.trees.toList

/-- The two grammars cannot be told apart by their samples. Mutators for them are given by their
engines, as nothing that a mutator does changes its engine; what else they hold is from before. -/
structure Grammar.Indistinguishable (σ : Type) [Source σ] (grammar other : Grammar) : Prop where
  /-- Both read the same samples. -/
  reads : ∀ sample, (∃ tree, grammar.readSample sample = .ok tree) ↔
    ∃ tree, other.readSample sample = .ok tree
  /-- A mutator can be made for both, or the same root symbol is missing. -/
  creates : ∀ (settings : Settings) (patience : Nat) (error : MutationError),
    Mutator.create grammar settings patience = .error error ↔
      Mutator.create other settings patience = .error error
  /-- The same samples are generated from the same draws. -/
  generates : ∀ (settings : Settings) (patience : Nat) (mutator otherMutator : Mutator),
    Engine.ofSettings? grammar settings patience = some mutator.engine →
      Engine.ofSettings? other settings patience = some otherMutator.engine →
        (mutator.generateSample : Trial MutationError σ Bytes) = otherMutator.generateSample
  /-- Requests are answered with the same samples from the same draws, if the bound trees are
  read from one sample and so are the trees that the corpora hold at each moment. -/
  mutates : ∀ (settings : Settings) (patience : Nat) (mutator otherMutator : Mutator),
    Engine.ofSettings? grammar settings patience = some mutator.engine →
      Engine.ofSettings? other settings patience = some otherMutator.engine →
        ∀ (sample : Bytes) (bound otherBound : Tree), grammar.readSample sample = .ok bound →
          other.readSample sample = .ok otherBound → mutator.bound = some bound →
            otherMutator.bound = some otherBound →
              ∀ (samples : Nat → List Bytes) (corpus otherCorpus : Nat → Corpus),
                (∀ moment, (corpus moment).ReadFrom grammar (samples moment)) →
                  (∀ moment, (otherCorpus moment).ReadFrom other (samples moment)) →
                    (Prod.snd <$> mutator.mutateAmid corpus : Trial MutationError σ Bytes) =
                      Prod.snd <$> otherMutator.mutateAmid otherCorpus

/-- A sample that one grammar reads is read by another one that knows its names, as reading asks a
grammar for nothing else. -/
theorem Grammar.reads_of_known {grammar other : Grammar} (wellFormed : grammar.WellFormed)
    (known : ∀ name, (grammar.symbol? name).isSome = true → (other.symbol? name).isSome = true)
    {sample : Bytes} (read : ∃ tree, grammar.readSample sample = .ok tree) :
    ∃ tree, other.readSample sample = .ok tree := by
  obtain ⟨tree, read⟩ := read
  obtain ⟨rfl, owned, storable⟩ := (readSample_eq_ok_iff wellFormed).mp read
  have named : tree.NamedBy other := owned.mono fun symbol _ found =>
    known symbol.name (by rw [found, Option.isSome_some])
  exact readSample_of_namedBy named storable

/-- An engine works with the grammar that it is made for, whatever its settings. -/
theorem Engine.grammar_of_ofSettings? {grammar : Grammar} {settings : Settings} {patience : Nat}
    {engine : Engine} (made : ofSettings? grammar settings patience = some engine) :
    engine.grammar = grammar := by
  obtain ⟨root, -, rfl⟩ := Option.map_eq_some_iff.mp made
  rfl

namespace Grammar.Renumbered

variable {grammar other : Grammar}

/-- Engines for the same settings differ in nothing but the numbers of symbols. -/
theorem engines (renumbered : grammar.Renumbered other) {settings : Settings} {patience : Nat}
    {engine otherEngine : Engine}
    (made : Engine.ofSettings? grammar settings patience = some engine)
    (otherMade : Engine.ofSettings? other settings patience = some otherEngine) :
    engine.Renumbered otherEngine := by
  obtain ⟨root, found, rfl⟩ := Option.map_eq_some_iff.mp made
  obtain ⟨otherRoot, otherFound, rfl⟩ := Option.map_eq_some_iff.mp otherMade
  have roots := twins_of_symbol? renumbered.leftFormed renumbered.rightFormed found otherFound
  exact ⟨renumbered, roots, rfl, rfl⟩

/-- A grammar cannot be told from its renumbering. -/
theorem indistinguishable (renumbered : grammar.Renumbered other) :
    grammar.Indistinguishable σ other where
  reads := by
    have known (name : String) := isSome_eq_of_rel (renumbered.symbol? name)
    exact fun sample =>
      ⟨reads_of_known renumbered.leftFormed fun name => (known name).symm.trans,
        reads_of_known renumbered.rightFormed fun name => (known name).trans⟩
  creates := by
    intro settings patience error
    unfold Mutator.create Engine.ofSettings?
    obtain ⟨absent, otherAbsent⟩ | ⟨root, otherRoot, found, otherFound, -⟩ :=
      rel_taken_apart (renumbered.symbol? settings.rootSymbol)
    · rw [absent, otherAbsent]
      rfl
    · simp [found, otherFound]
  generates := fun _ _ _ _ made otherMade =>
    Mutator.generateSample_eq (renumbered.engines made otherMade)
  mutates := by
    intro settings patience mutator otherMutator made otherMade sample bound otherBound read
      otherRead binds otherBinds samples corpus otherCorpus readFrom otherReadFrom
    have twins : Tree.Twins grammar other bound otherBound :=
      Tree.twins_of_readSample renumbered read otherRead
    have corpora (moment : Nat) :
        Corpus.Twins grammar other (corpus moment) (otherCorpus moment) :=
      forall₂_across (readFrom moment) (otherReadFrom moment) fun _ _ _ =>
        Tree.twins_of_readSample renumbered
    rw [← Engine.grammar_of_ofSettings? made, ← Engine.grammar_of_ofSettings? otherMade]
      at twins corpora
    exact Lockstep.map_eq (Mutator.mutateAmid_lockstep (renumbered.engines made otherMade)
      corpora twins binds otherBinds) fun _ _ same => same

end Grammar.Renumbered

namespace Grammar

/-- Numbers of symbols are not seen in samples. Where calls of a declaration change places, those
for each name and the settings that are made last aside, a grammar is built from both or from
neither, and the two grammars cannot be told apart: they read the same samples, and from the
same draws mutators generate the same samples and answer requests on trees that are read from
the same samples with the same samples. -/
theorem numbers_unseen_in_samples {left right : List Declaration}
    (rearranged : Rearranged left right) :
    ((∃ grammar, ofDeclarations left = .ok grammar) ↔
      ∃ grammar, ofDeclarations right = .ok grammar) ∧
    ∀ grammar other, ofDeclarations left = .ok grammar → ofDeclarations right = .ok other →
      grammar.Indistinguishable σ other := by
  refine ⟨⟨?onward, ?back⟩, ?alike⟩
  case onward =>
    rintro ⟨grammar, built⟩
    obtain ⟨other, otherBuilt, -⟩ := rearranged.ofDeclarations built
    exact ⟨other, otherBuilt⟩
  case back =>
    rintro ⟨other, otherBuilt⟩
    obtain ⟨grammar, built, -⟩ := rearranged.symm.ofDeclarations otherBuilt
    exact ⟨grammar, built⟩
  case alike =>
    intro grammar other built otherBuilt
    obtain ⟨known, sameBuilt, renumbered⟩ := rearranged.ofDeclarations built
    cases sameBuilt.symm.trans otherBuilt
    exact renumbered.indistinguishable

/-- Runs of binary digits, declared with one of the digits before the list. -/
def digitFirst.declarations : List Declaration :=
  [.rule "digit" [.literal [48]], .repetition "list" "digit", .rule "digit" [.literal [49]]]

/-- Runs of binary digits, the digit numbered before the list. -/
def digitFirst : Grammar where
  symbols := [.plain 0 "digit", .repetition 1 "list" (.plain 0 "digit")]
  productions := [.alternatives [[.literal [48]], [.literal [49]]], .repetition 0]
  byName := [("digit", 0), ("list", 1)]
  maxDepth := 100
  repeatProbability := 0.75

/-- The binary numeral of one where the digit is numbered before the list. -/
def digitFirst.one : Tree :=
  .expansion (.repetition 1 "list" (.plain 0 "digit")) [.expansion (.plain 0 "digit") [.text [49]]]

/-- A mutator for binary numerals. -/
def ofNumeral (grammar : Grammar) (root : Symbol) (bound : Tree) : Mutator where
  engine := { grammar, settings := { rootSymbol := "list" }, root, patience := 50 }
  bound := some bound

/-- Whichever symbol is numbered first, the numeral of one is mutated into one sample. -/
theorem numbers_unseen_in_samples_digitFirst :
    Rearranged numerals.declarations digitFirst.declarations ∧ one ≠ digitFirst.one ∧
      ∃ (answer otherAnswer : Mutator × Bytes) (journal : Journal SplitMix),
        (ofNumeral numerals (.repetition 0 "list" (.plain 1 "digit")) one).mutate
            { trees := #[one] } { source := ⟨0⟩ } = .ok answer journal ∧
          (ofNumeral digitFirst (.repetition 1 "list" (.plain 0 "digit")) digitFirst.one).mutate
              { trees := #[digitFirst.one] } { source := ⟨0⟩ } = .ok otherAnswer journal ∧
            answer.2 = otherAnswer.2 := by
  have rearranged : Rearranged numerals.declarations digitFirst.declarations :=
    rearranged_swap [] _ rfl rfl (show "list" ≠ "digit" by decide)
  have unseen := (numbers_unseen_in_samples (σ := SplitMix) rearranged).2 numerals digitFirst
    ofDeclarations_numerals rfl
  have wellFormed : numerals.WellFormed := wellFormed_of_ofDeclarations ofDeclarations_numerals
  have otherFormed : digitFirst.WellFormed :=
    wellFormed_of_ofDeclarations (show ofDeclarations digitFirst.declarations = .ok _ from rfl)
  have read : numerals.readSample one.toSample = .ok one :=
    (readSample_eq_ok_iff wellFormed).mpr ⟨rfl, by decide, by decide⟩
  have otherRead : digitFirst.readSample one.toSample = .ok digitFirst.one :=
    (readSample_eq_ok_iff otherFormed).mpr ⟨rfl, by decide, by decide⟩
  have same := unseen.mutates { rootSymbol := "list" } 50
    (ofNumeral numerals (.repetition 0 "list" (.plain 1 "digit")) one)
    (ofNumeral digitFirst (.repetition 1 "list" (.plain 0 "digit")) digitFirst.one)
    rfl rfl one.toSample one digitFirst.one read otherRead rfl rfl (fun _ => [one.toSample])
    (fun _ => { trees := #[one] }) (fun _ => { trees := #[digitFirst.one] })
    (fun _ => .cons read .nil) (fun _ => .cons otherRead .nil)
  have answered : (match (ofNumeral numerals (.repetition 0 "list" (.plain 1 "digit")) one).mutate
        { trees := #[one] } ({ source := ⟨0⟩ } : Journal SplitMix) with
      | .ok _ _ => true
      | .error _ _ => false) = true := by decide +kernel
  refine ⟨rearranged, by decide, ?_⟩
  rw [Mutator.mutate] at answered ⊢
  split at answered
  · next answer journal ends =>
    obtain ⟨otherAnswer, otherEnds, samples⟩ := answer_of_map_eq same ends
    exact ⟨answer, otherAnswer, journal, ends, otherEnds, samples⟩
  · cases answered

end Grammar

end Graft
