import Graft.Proofs.Mutation.Request
import Graft.Proofs.Random.Drawing

/-!
# What mutators draw

Whatever a mutator does to its source it does by draws. Conditions that no draw takes away are
kept, therefore, by growth, by every strategy and by a request as a whole, provided that the two
loops keep them that only draws can end: the growth of a run of elements, and the staging of
elements to be put in. What these two loops do is left open here.
-/

namespace Graft

open Graft.Random

variable {ι σ : Type} [Source σ] {holds : ι → σ → Prop} {stops : Fault → Prop}

/-! ## Growth -/

/-- The growth of a run of elements keeps the conditions if the growth of an element does, and a
depth that cannot be counted is a cause of the kind where the grammar allows every depth. -/
structure Grammar.Steady (grammar : Grammar) (patience : Nat) (holds : ι → σ → Prop)
    (stops : Fault → Prop) : Prop extends steps : Graft.Steady holds stops where
  depths : Depth.greatest ≤ grammar.maxDepth → stops .depthUncountable
  runs : ∀ {grow : Chance σ (Option Tree)}, Sustains grow holds stops →
    Sustains (growRun grammar.repeatProbability grow patience) holds stops

namespace Grammar

variable {grammar : Grammar}

omit [Source σ] in
/-- A row keeps the conditions if its symbols do. The induction is on the parts, of which literals
draw nothing. -/
theorem growRow_sustains {grow : Symbol → Chance σ (Option Tree)}
    (grows : ∀ symbol, Sustains (grow symbol) holds stops) (parts : List Part) :
    Sustains (grammar.growRow grow parts) holds stops := by
  induction parts with
  | nil => exact .pure _
  | cons part parts inductionHypothesis =>
    cases part with
    | literal octets => exact .bind inductionHypothesis fun rest => .pure _
    | symbol id =>
      unfold growRow
      split
      · exact .pure _
      · next symbol found =>
        refine .bind (grows symbol) fun first => ?_
        cases first with
        | none => exact .pure _
        | some tree => exact .bind inductionHypothesis fun rest => .pure _

/-- A run keeps the conditions if its element does and the run may be abandoned. The induction is on
the patience, one element to a step. -/
theorem growRun_sustains (steady : Graft.Steady holds stops) (patient : stops .patienceExhausted)
    (probability : Float) {grow : Chance σ (Option Tree)} (grows : Sustains grow holds stops)
    (patience : Nat) : Sustains (growRun probability grow patience) holds stops := by
  induction patience with
  | zero => exact .throw patient
  | succ patience inductionHypothesis =>
    refine .bind grows fun first => ?_
    cases first with
    | none => exact .pure _
    | some tree =>
      exact .bind steady.fraction fun fraction =>
        .ite (fun _ => .pure _) fun _ => .bind inductionHypothesis fun _ => .pure _

variable {patience : Nat} (steady : grammar.Steady patience holds stops)
include steady

/-- The growth of a node keeps the conditions. The induction is on the budget of levels. -/
theorem growNode_sustains (budget : Nat) (symbol : Symbol) :
    Sustains (grammar.growNode patience budget symbol : Chance σ (Option Tree)) holds stops := by
  induction budget generalizing symbol with
  | zero =>
    exact .ite (fun _ => .pure _) fun unlimited =>
      .throw (steady.depths (Nat.le_of_not_gt unlimited))
  | succ budget inductionHypothesis =>
    cases produced : grammar.productions[symbol.id]? with
    | none =>
      simp only [growNode, produced]
      exact .pure _
    | some production =>
      cases production with
      | alternatives rows =>
        cases rows with
        | nil =>
          simp only [growNode, produced]
          exact .pure _
        | cons row rows =>
          simp only [growNode, produced]
          refine .bind (steady.below _) fun place => ?_
          cases (row :: rows)[place]? with
          | none => exact .throw (steady.pastEnd _ _)
          | some row => exact .bind (growRow_sustains inductionHypothesis row) fun _ => .pure _
      | repetition repeated =>
        simp only [growNode, produced]
        cases symbol.element? with
        | none => exact .pure _
        | some element => exact .bind (steady.runs (inductionHypothesis element)) fun _ => .pure _

/-- The growth of a symbol at a depth keeps the conditions. Too deep, it draws nothing at all. -/
theorem grow_sustains (symbol : Symbol) (depth : Nat) :
    Sustains (grammar.grow patience symbol depth : Chance σ (Option Tree)) holds stops := by
  unfold grow
  split
  · exact .pure _
  · next own _ => exact .ite (fun _ => growNode_sustains steady _ own) fun _ => .pure _

end Grammar

/-! ## Strategies -/

/-- Growth and the staging of elements keep the conditions, and a depth that cannot be counted is a
cause of the kind where the settings let an edit reach every depth. -/
structure Engine.Steady (engine : Engine) (holds : ι → σ → Prop) (stops : Fault → Prop) : Prop
    extends growth : engine.grammar.Steady engine.patience holds stops where
  depthsBelow : Depth.greatest ≤ engine.settings.maxDepth → stops .depthUncountable
  stages : ∀ {element : Symbol} {depth : Nat},
    Sustains (engine.grow element depth : Chance σ (Option Tree)) holds stops →
      Sustains (engine.stage element depth engine.patience) holds stops

/-- To choose a candidate keeps the conditions. It draws a fraction, or nothing if there is nothing
to choose. -/
theorem Candidate.select_sustains (steady : Steady holds stops) (candidates : List Candidate) :
    Sustains (select candidates : Chance σ (Option Candidate)) holds stops :=
  .ite (fun _ => .pure _) fun _ => .bind steady.fraction fun _ => .pure _

/-- To choose a tree of the corpus keeps the conditions. It draws a remainder, or nothing from an
empty corpus. -/
theorem Corpus.random_sustains (steady : Steady holds stops) (corpus : Corpus) :
    Sustains (corpus.random : Chance σ (Option Tree)) holds stops :=
  .ite (fun _ => .pure _) fun _ => .bind (steady.remainder _) fun _ => .pure _

namespace Engine

variable {engine : Engine}

/-- To choose a donor keeps the conditions. To list the donors draws nothing, and the choice is the
only draw. -/
theorem chooseDonor_sustains (steady : Graft.Steady holds stops) (query : Query) (other : Tree)
    (held : List Candidate) :
    Sustains (chooseDonor query other held : Chance σ (List Candidate × Option Tree)) holds
      stops := by
  refine .bind (Candidate.select_sustains steady _) fun donor? => ?_
  cases donor? with
  | none => exact .pure _
  | some donor => exact .pure _

/-- To draw whether a run goes on keeps the conditions, whichever way it goes. -/
theorem goesOn_sustains (steady : Graft.Steady holds stops) (engine : Engine) :
    Sustains (engine.goesOn : Chance σ Bool) holds stops :=
  .bind steady.fraction fun _ => .pure _

/-- To stage elements keeps the conditions if their growth does and staging may be abandoned. The
induction is on the patience, as for runs that grow. -/
theorem stage_sustains (steady : Graft.Steady holds stops) (patient : stops .patienceExhausted)
    (engine : Engine) {element : Symbol} {depth : Nat}
    (grows : Sustains (engine.grow element depth : Chance σ (Option Tree)) holds stops)
    (patience : Nat) : Sustains (engine.stage element depth patience) holds stops := by
  induction patience with
  | zero => exact .throw patient
  | succ patience inductionHypothesis =>
    refine .bind grows fun grown => .bind (goesOn_sustains steady engine) fun further => ?_
    exact .ite (fun _ => .bind inductionHypothesis fun _ => .pure _) fun _ => .pure _

/-- To measure a run keeps the conditions. No patience is asked for, since the run ends with the
children that are available. -/
theorem runLength_sustains (steady : Graft.Steady holds stops) (engine : Engine)
    (available : Nat) : Sustains (engine.runLength available : Chance σ Nat) holds stops := by
  induction available with
  | zero => exact .pure 0
  | succ available inductionHypothesis =>
    exact .bind (goesOn_sustains steady engine) fun further =>
      .ite (fun _ => .bind inductionHypothesis fun _ => .pure _) fun _ => .pure 1

/-- To delete a run keeps the conditions. A position past the children is among the mishaps that are
allowed. -/
theorem deleteRun_sustains (steady : Graft.Steady holds stops) (engine : Engine) (position : Nat)
    (children : List Tree) :
    Sustains (engine.deleteRun position children : Chance σ (List Tree)) holds stops := by
  refine .bind (runLength_sustains steady engine _) fun count => ?_
  exact .ite (fun _ => .bind (.throw (steady.pastEnd _ _)) fun _ => .pure _)
    fun _ => .pure _

/-- To put elements in keeps the conditions, as it draws nothing. A position past the children is
again a mishap that is allowed. -/
theorem insertAfter_sustains (steady : Graft.Steady holds stops) (position : Nat)
    (elements children : List Tree) :
    Sustains (insertAfter position elements children : Chance σ (List Tree)) holds stops :=
  .ite (fun _ => .bind (.throw (steady.pastEnd _ _)) fun _ => .pure _) fun _ => .pure _

/-- To copy into a repetition keeps the conditions: runs are measured and perhaps one is deleted,
and no loop is left to its draws. -/
theorem spliceRepetition_sustains (steady : Graft.Steady holds stops) (engine : Engine)
    (node donor : Tree) (position donorPosition : Nat) (delete : Bool) :
    Sustains (engine.spliceRepetition node donor position donorPosition delete :
      Chance σ Edited) holds stops := by
  cases node with
  | text octets => exact .pure _
  | expansion symbol children =>
    have copying (left : List Tree) : Sustains (do
        let available := donor.children.drop donorPosition
        let count ← engine.runLength available.length
        if available.length < count then throw (.positionPastEnd count available.length)
        return .changed (.expansion symbol (← insertAfter position (available.take count) left)) :
          Chance σ Edited) holds stops := by
      refine .bind (runLength_sustains steady engine _) fun count => ?_
      have inserting : Sustains (do
          return .changed (.expansion symbol (← insertAfter position
            ((donor.children.drop donorPosition).take count) left)) : Chance σ Edited)
          holds stops :=
        .bind (insertAfter_sustains steady position _ left) fun _ => .pure _
      exact .ite (fun _ => .bind (.throw (steady.pastEnd _ _)) fun _ => inserting)
        fun _ => inserting
    cases delete with
    | false => exact copying children
    | true => exact .bind (deleteRun_sustains steady engine position children) copying

/-- To splice keeps the conditions, for each of its three choices does and it grows nothing. -/
theorem splice_sustains (steady : Graft.Steady holds stops) (engine : Engine) (corpus : Corpus)
    (sites : Sites) (tree : Tree) (donors : List Candidate) :
    Sustains (engine.splice corpus sites tree donors : Chance σ Attempt) holds stops := by
  refine .bind (Candidate.select_sustains steady _) fun selected => ?_
  cases selected with
  | none => exact .pure _
  | some candidate =>
    refine .bind (Corpus.random_sustains steady corpus) fun given => ?_
    cases given with
    | none => exact .pure _
    | some other =>
      dsimp only
      split
      · exact .pure _
      · refine .bind (chooseDonor_sustains steady _ other donors) fun chosen => ?_
        obtain ⟨donors, donor?⟩ := chosen
        cases donor? with
        | none => exact .pure _
        | some donor => exact .pure _

/-- To copy between repetitions keeps the conditions, for the choices of a splice do and so do those
of the runs. -/
theorem repeatSplice_sustains (steady : Graft.Steady holds stops) (engine : Engine)
    (corpus : Corpus) (sites : Sites) (tree : Tree) (donors : List Candidate) :
    Sustains (engine.repeatSplice corpus sites tree donors : Chance σ Attempt) holds stops := by
  refine .bind (Candidate.select_sustains steady _) fun selected => ?_
  cases selected with
  | none => exact .pure _
  | some candidate =>
    refine .bind (Corpus.random_sustains steady corpus) fun given => ?_
    cases given with
    | none => exact .pure _
    | some other =>
      dsimp only
      split
      · exact .pure _
      · exact .pure _
      · refine .bind (chooseDonor_sustains steady _ other donors) fun chosen => ?_
        obtain ⟨donors, donor?⟩ := chosen
        cases donor? with
        | none => exact .pure _
        | some donor =>
          refine .bind (steady.position _) fun position => ?_
          refine .bind (steady.position _) fun donorPosition => ?_
          refine .bind steady.fraction fun fraction => ?_
          exact .bind (spliceRepetition_sustains steady engine _ donor _ _ _) fun edited => .pure _

variable (steady : engine.Steady holds stops)
include steady

/-- Growth as an engine asks for it keeps the conditions, with the patience of the engine. -/
theorem grow_sustains (symbol : Symbol) (depth : Nat) :
    Sustains (engine.grow symbol depth : Chance σ (Option Tree)) holds stops :=
  Grammar.grow_sustains steady.growth symbol depth

/-- To grow a node afresh keeps the conditions, for the choice of the node and its growth do. -/
theorem replaceNode_sustains (sites : Sites) (tree : Tree) :
    Sustains (engine.replaceNode sites tree : Chance σ Edited) holds stops := by
  refine .bind (Candidate.select_sustains steady.steps _) fun selected => ?_
  cases selected with
  | none => exact .throw (steady.mishap _ nofun nofun)
  | some candidate =>
    dsimp only
    split
    · exact .pure _
    · next symbol _ =>
      refine .bind (grow_sustains steady symbol candidate.depth) fun grown => ?_
      cases grown with
      | none => exact .pure _
      | some new => exact .pure _

/-- To edit a repetition keeps the conditions, at a depth that the settings let an edit reach. The
depth is counted on for the elements that are staged. -/
theorem editRepetition_sustains (node : Tree) {depth : Nat}
    (reached : depth ≤ engine.settings.maxDepth) (position : Nat) (mode : RepeatMode) :
    Sustains (engine.editRepetition node depth position mode : Chance σ Edited) holds stops := by
  have steps := steady.steps
  cases node with
  | text octets => exact .pure _
  | expansion symbol children =>
    cases carried : symbol.element? with
    | none =>
      simp only [editRepetition, carried]
      exact .pure _
    | some element =>
      have lower : Sustains (MonadExcept.ofExcept (Depth.below depth) : Chance σ Nat) holds
          stops := by
        unfold Depth.below
        split
        · exact .pure _
        · next uncountable =>
          exact .throw (steady.depthsBelow (Nat.le_trans (Nat.le_of_not_gt uncountable) reached))
      have staging : Sustains (engine.staging element depth mode : Chance σ (List Tree)) holds
          stops :=
        .ite (fun _ => .bind lower fun below => steady.stages (grow_sustains steady element below))
          fun _ => .pure _
      have exchange (staged : List Tree) :
          Sustains (engine.exchange position mode staged children : Chance σ (List Tree)) holds
            stops := by
        have inserting (left : List Tree) : Sustains
            (if mode.inserts then insertAfter position staged left else pure left :
              Chance σ (List Tree)) holds stops :=
          .ite (fun _ => insertAfter_sustains steps position staged left) fun _ => .pure _
        exact .ite (fun _ => .bind (deleteRun_sustains steps engine position children) inserting)
          fun _ => inserting children
      rw [editRepetition_eq engine carried]
      exact .bind staging fun staged =>
        .ite (fun _ => .pure _) fun _ => .bind (exchange staged) fun _ => .pure _

/-- To edit a repetition of a tree keeps the conditions. The node that is chosen lies where the
settings let an edit reach. -/
theorem repeatMutator_sustains (tree : Tree) :
    Sustains (engine.repeatMutator (engine.sites tree) tree : Chance σ Edited) holds stops := by
  have steps := steady.steps
  refine (Candidate.select_sustains steps _).bindEnds (Candidate.select_ends _)
    fun selected known => ?_
  cases selected with
  | none => exact .pure _
  | some candidate =>
    obtain ⟨depthIs, inside, -⟩ := node_of_mem_repetitions (known.1 candidate rfl)
    dsimp only
    split
    · exact .pure _
    · next node _ =>
      refine .bind (steps.position _) fun position => ?_
      refine .bind steps.fraction fun fraction => ?_
      exact .bind (editRepetition_sustains steady node (depthIs ▸ inside) position _)
        fun edited => .pure _

/-- To follow a strategy keeps the conditions, whichever of the four it is. -/
theorem apply_sustains (corpus : Corpus) (strategy : Strategy) (tree : Tree)
    (donors : List Candidate) :
    Sustains (engine.apply corpus strategy (engine.sites tree) tree donors : Chance σ Attempt) holds
      stops := by
  have steps := steady.steps
  cases strategy with
  | replaceNode =>
    exact .ite (fun _ => .pure _)
      fun _ => .bind (replaceNode_sustains steady _ tree) fun _ => .pure _
  | splice => exact splice_sustains steps engine corpus _ tree donors
  | repeatMutator => exact .bind (repeatMutator_sustains steady tree) fun _ => .pure _
  | repeatSplice => exact repeatSplice_sustains steps engine corpus _ tree donors

end Engine

/-! ## Requests -/

/-- What stops a trial is a fault of the kind, or an error that is reported. -/
def Stop.Among {ε : Type} (stops : Fault → Prop) : Stop ε → Prop
  | .fault cause => stops cause
  | .error _ => True

namespace Mutator

variable {engine : Engine} (steady : engine.Steady holds stops)
include steady

/-- An attempt keeps the conditions. Besides what its strategy does it draws the strategy and
counts, and counting does not touch the source. -/
theorem attempt_sustains (corpus : Corpus) (request : Request) :
    Sustains (attempt engine corpus request : Trial MutationError σ (Request × Bool))
      (fun index journal => holds index journal.source) (Stop.Among stops) := by
  have fraction := steady.steps.fraction
  simp only [attempt, Request.refresh_eq]
  refine .bind (.chance fraction fun _ stop => stop) fun fraction => ?_
  refine .bind (.chance (Engine.apply_sustains steady corpus _ request.working request.donors)
    fun _ stop => stop) fun applied => ?_
  exact .ite (fun _ => .pure _) fun _ => .bind .note fun _ => .pure _

/-- Attempts one after the other keep the conditions. The induction is on the attempts that are
left, with whatever the corpus holds at each. -/
theorem edit_sustains (corpus : Nat → Corpus) (request : Request) (attempts : Nat) :
    Sustains (edit engine corpus request attempts : Trial MutationError σ Request)
      (fun index journal => holds index journal.source) (Stop.Among stops) := by
  induction attempts generalizing request with
  | zero => exact .pure _
  | succ attempts inductionHypothesis =>
    rw [edit_succ]
    refine .bind (attempt_sustains steady (corpus attempts) request) fun outcome => ?_
    obtain ⟨next, succeeded⟩ := outcome
    cases succeeded with
    | false => exact inductionHypothesis next
    | true =>
      refine .bind (.chance steady.steps.fraction fun _ stop => stop) fun fraction => ?_
      exact .ite (fun _ => .pure _) fun _ => inductionHypothesis next

omit steady

/-- A request keeps the conditions, whether it grows a sample afresh, edits the bound tree or is
refused. -/
theorem mutateAmid_sustains {mutator : Mutator} (steady : mutator.engine.Steady holds stops)
    (corpus : Nat → Corpus) :
    Sustains (mutator.mutateAmid corpus : Trial MutationError σ (Mutator × Bytes))
      (fun index journal => holds index journal.source) (Stop.Among stops) := by
  cases binds : mutator.bound with
  | none =>
    rw [mutateAmid_of_unbound corpus binds]
    exact .throw trivial
  | some bound =>
    have byEdits (tally : Tally) : Sustains
        ({ mutator with tally }.mutateByEdits corpus bound :
          Trial MutationError σ (Mutator × Bytes))
        (fun index journal => holds index journal.source) (Stop.Among stops) := by
      refine .bind (edit_sustains steady corpus _ _) fun edited => ?_
      exact .ite (fun _ => .pure _) fun _ => .bind .note fun _ => .pure _
    rw [mutateAmid_of_bound corpus binds]
    refine .bind (.chance steady.steps.fraction fun _ stop => stop) fun fraction => ?_
    have growth := Engine.grow_sustains steady mutator.engine.root 0
    refine .ite (fun _ => .bind (.chance growth fun _ stop => stop) fun grown => ?_)
      fun _ => byEdits _
    cases grown with
    | none => exact byEdits _
    | some tree => exact .bind .note fun _ => .pure _

end Mutator

/-! ## What is reached -/

/-- No draw leads to where draws do not lead. This is the weakest of the conditions that draws keep,
and allows every cause. -/
theorem Random.Source.reaches_steady :
    Graft.Steady (Source.Reaches : σ → σ → Prop) fun _ => True where
  word _ source reached := reached.trans (.word source)
  halfWord _ source reached := reached.trans (.halfWord source)
  mishap _ _ _ := trivial

/-- Growth leads to where draws lead. The loop that is left open draws nothing but what its elements
and its probability ask for. -/
theorem Grammar.reaches_steady (grammar : Grammar) (patience : Nat) :
    grammar.Steady patience (Source.Reaches : σ → σ → Prop) fun _ => True where
  steps := Source.reaches_steady
  depths _ := trivial
  runs grows := Grammar.growRun_sustains Source.reaches_steady trivial _ grows _

/-- Whatever an engine does leads to where draws lead. A source that a request has left can thus be
reached by draws alone. -/
theorem Engine.reaches_steady (engine : Engine) :
    engine.Steady (Source.Reaches : σ → σ → Prop) fun _ => True where
  growth := engine.grammar.reaches_steady engine.patience
  depthsBelow _ := trivial
  stages grows := Engine.stage_sustains Source.reaches_steady trivial engine grows _

end Graft
