import Graft.Mutation.Attempt
import Graft.Proofs.Candidates
import Graft.Proofs.Mutation.Repetition
import Graft.Proofs.Walk

/-!
# What an attempt does to a tree

A strategy that applies rewrites one inner node of the tree and nothing else. What
may come to stand in place of the node depends on the strategy, the node and its
depth, and the trees of the corpus, and is described here without reference to
chance. An attempt makes such a rewrite, leaves the tree as it is, or is abandoned
for one of three causes.

Every law about mutated trees follows from the description: the strategies
themselves are looked into in this module only.
-/

namespace Graft

/-- What a strategy may put in place of a node of the given depth, symbol and children. -/
inductive Rewrite (engine : Engine) (corpus : Corpus) (depth : Nat) (symbol : Symbol)
    (children : List Tree) : Strategy → Tree → Prop where
  /-- A new growth of the symbol at the depth of the node. -/
  | replaceNode (new : Tree) (grown : engine.grammar.GrowsAt symbol depth new) :
      Rewrite engine corpus depth symbol children .replaceNode new
  /-- A subtree of the same symbol that sits no deeper in its tree. -/
  | splice (other : Tree) (path : Path) (label : Symbol) (grandchildren : List Tree)
      (member : other ∈ corpus.trees)
      (found : other.at? path = some (.expansion label grandchildren))
      (inside : path.length ≤ depth) (same : label.id = symbol.id) :
      Rewrite engine corpus depth symbol children .splice (.expansion label grandchildren)
  /-- The node without a run of its children, with new growths of its element among them. -/
  | repeatMutator (element : Symbol) (position count : Nat) (staged : List Tree)
      (carried : symbol.element? = some element) (within : position + count ≤ children.length)
      (grown : ∀ new ∈ staged, engine.grammar.GrowsAt element (depth + 1) new) :
      Rewrite engine corpus depth symbol children .repeatMutator
        (.expansion symbol (withRun position staged (withoutRun position count children)))
  /-- The node without a run of its children, with a run of a donor's children among them. The
  donor is a repetition of the same symbol that sits no deeper in its tree. -/
  | repeatSplice (other : Tree) (path : Path) (label : Symbol) (grandchildren : List Tree)
      (position count start copied : Nat) (repetition : symbol.isRepetition = true)
      (donor : label.isRepetition = true) (member : other ∈ corpus.trees)
      (found : other.at? path = some (.expansion label grandchildren))
      (inside : path.length ≤ depth) (same : label.id = symbol.id)
      (within : position + count ≤ children.length) :
      Rewrite engine corpus depth symbol children .repeatSplice
        (.expansion symbol (withRun position ((grandchildren.drop start).take copied)
          (withoutRun position count children)))

/-- What a strategy puts in place of a node, with the runs that chance lets it take. Of a
repetition as much is deleted and inserted as the mode picked for it says, and where a run is
copied it has an element if there is one to copy. -/
inductive Draw (engine : Engine) (corpus : Corpus) (depth : Nat) (symbol : Symbol)
    (children : List Tree) : Strategy → Tree → Prop where
  /-- A new growth of the symbol. -/
  | replaceNode (new : Tree)
      (rewrite : Rewrite engine corpus depth symbol children .replaceNode new) :
      Draw engine corpus depth symbol children .replaceNode new
  /-- A subtree of the corpus. -/
  | splice (new : Tree) (rewrite : Rewrite engine corpus depth symbol children .splice new) :
      Draw engine corpus depth symbol children .splice new
  /-- The node with its children edited in a mode. -/
  | repeatMutator (fraction : Float) (element : Symbol) (position count : Nat)
      (staged : List Tree) (carried : symbol.element? = some element)
      (does : (RepeatMode.pick fraction engine.settings.repeatModes).Does position count staged
        children)
      (grown : ∀ new ∈ staged, engine.grammar.GrowsAt element (depth + 1) new) :
      Draw engine corpus depth symbol children .repeatMutator
        (.expansion symbol (withRun position staged (withoutRun position count children)))
  /-- The node with a run of a donor's children among its own. -/
  | repeatSplice (label : Symbol) (grandchildren : List Tree) (position count start copied : Nat)
      (other : Tree) (path : Path) (repetition : symbol.isRepetition = true)
      (donor : label.isRepetition = true) (member : other ∈ corpus.trees)
      (found : other.at? path = some (.expansion label grandchildren))
      (inside : path.length ≤ depth) (same : label.id = symbol.id)
      (within : position + count ≤ children.length) (starts : start < max grandchildren.length 1)
      (run : start < grandchildren.length → 0 < copied) :
      Draw engine corpus depth symbol children .repeatSplice
        (.expansion symbol (withRun position ((grandchildren.drop start).take copied)
          (withoutRun position count children)))

/-- What is drawn is a rewrite by the strategy. Of the draw itself, and so of what made the run as
long as it is, nothing is said any more. -/
theorem Draw.rewrite {engine : Engine} {corpus : Corpus} {depth : Nat} {symbol : Symbol}
    {children : List Tree} {strategy : Strategy} {new : Tree}
    (draw : Draw engine corpus depth symbol children strategy new) :
    Rewrite engine corpus depth symbol children strategy new := by
  cases draw with
  | replaceNode new rewrite => exact rewrite
  | splice new rewrite => exact rewrite
  | repeatMutator fraction element position count staged carried does grown =>
    exact .repeatMutator element position count staged carried does.within grown
  | repeatSplice label grandchildren position count start copied other path repetition donor
      member found inside same within =>
    exact .repeatSplice other path label grandchildren position count start copied repetition
      donor member found inside same within

/-- A strategy turns a tree into another one: it rewrites an inner node that the settings let
it reach. -/
def Edits (engine : Engine) (corpus : Corpus) (strategy : Strategy) (tree result : Tree) : Prop :=
  ∃ path symbol children new, tree.at? path = some (.expansion symbol children) ∧
    path.length ≤ engine.settings.maxDepth ∧
      Rewrite engine corpus path.length symbol children strategy new ∧
        tree.replaceAt? path new = some result

/-- An attempt with a strategy turns a tree into another one. This says of the rewrite all that
is known of the draws behind it. -/
def Applies (engine : Engine) (corpus : Corpus) (strategy : Strategy) (tree result : Tree) : Prop :=
  ∃ path symbol children new, tree.at? path = some (.expansion symbol children) ∧
    path.length ≤ engine.settings.maxDepth ∧
      Draw engine corpus path.length symbol children strategy new ∧
        tree.replaceAt? path new = some result

/-- An attempt that applies edits the tree, and forgets how what it puts in was drawn. -/
theorem Applies.edits {engine : Engine} {corpus : Corpus} {strategy : Strategy}
    {tree result : Tree} (applies : Applies engine corpus strategy tree result) :
    Edits engine corpus strategy tree result := by
  obtain ⟨path, symbol, children, new, found, inside, draw, replaced⟩ := applies
  exact ⟨path, symbol, children, new, found, inside, draw.rewrite, replaced⟩

namespace Engine

open Graft.Random

/-- An attempt chooses from the candidates of the tree, for the lists are filled anew for it. -/
@[simp] theorem collectSites_eq (engine : Engine) (tree : Tree) (held : Sites) :
    engine.collectSites tree held = engine.sites tree := by
  simp only [collectSites, Query.refilled_eq]
  rfl

/-- Why an attempt on a tree may be abandoned: its growth is, the tree has more levels than
can be counted, or the nodes to choose from have no weight. -/
def Abandons (engine : Engine) (tree : Tree) : Fault → Prop
  | .patienceExhausted => True
  | .depthUncountable =>
    Depth.greatest ≤ engine.grammar.maxDepth ∨ Depth.greatest ≤ tree.innerHeight
  | .noSelectableNode =>
    (engine.sites tree).nodes ≠ [] ∧
      (Weighted.total ((engine.sites tree).nodes.map Candidate.weight) == 0) = true
  | _ => False

/-- Where growth is abandoned the attempt is, for the same cause. -/
theorem abandons_of_grammar {engine : Engine} {tree : Tree} {fault : Fault}
    (abandons : engine.grammar.Abandons fault) : engine.Abandons tree fault := by
  cases fault with
  | patienceExhausted => trivial
  | depthUncountable => exact .inl abandons
  | _ => cases abandons

/-- A node that may be chosen is an inner node that the settings let an edit reach. Its depth is
that of its path, since the search starts at the root. -/
theorem node_of_mem_nodes {engine : Engine} {tree : Tree} {candidate : Candidate}
    (member : candidate ∈ (engine.sites tree).nodes) :
    candidate.depth = candidate.path.length ∧
      candidate.path.length ≤ engine.settings.maxDepth ∧
        ∃ symbol children, tree.at? candidate.path = some (.expansion symbol children) := by
  obtain ⟨depthIs, inside, -, symbol, children, found, -⟩ := Query.mem_collect_iff.mp member
  simp only [query, Nat.zero_add] at depthIs inside
  exact ⟨depthIs, depthIs ▸ inside, symbol, children, found⟩

/-- A repetition that may be chosen is a node that may be chosen, of a repetition. There are fewer
of them, and none in many a tree. -/
theorem node_of_mem_repetitions {engine : Engine} {tree : Tree} {candidate : Candidate}
    (member : candidate ∈ (engine.sites tree).repetitions) :
    candidate.depth = candidate.path.length ∧
      candidate.path.length ≤ engine.settings.maxDepth ∧
        ∃ symbol children, tree.at? candidate.path = some (.expansion symbol children) ∧
          symbol.isRepetition = true := by
  obtain ⟨depthIs, inside, -, symbol, children, found, accepted⟩ :=
    Query.mem_collect_iff.mp member
  simp only [query, Nat.zero_add] at depthIs inside
  have repetition : symbol.isRepetition = true := by
    simpa [Query.accepts, query] using accepted
  exact ⟨depthIs, depthIs ▸ inside, symbol, children, found, repetition⟩

variable {σ : Type} [Source σ] {engine : Engine} {corpus : Corpus} {tree : Tree}

/-- What the corpus gives it holds, and from an empty one nothing is given. -/
theorem random_ends (corpus : Corpus) {stops : Fault → Prop} :
    Ends (corpus.random : Chance σ (Option Tree))
      (fun given => ∀ other, given = some other → other ∈ corpus.trees) stops := by
  unfold Corpus.random
  split
  · exact Ends.nothing rfl
  · next inhabited =>
    refine Ends.bind (Chance.remainder_ends (Nat.pos_of_ne_zero inhabited)) fun place _ => ?_
    exact Ends.pure fun other given => Array.mem_of_getElem? given

/-- A donor is an inner node of the tree that it is chosen from, accepted by the query. Its path
leads to it, as its list has just been filled from that tree. -/
theorem chooseDonor_ends (query : Query) (other : Tree) (held : List Candidate)
    {stops : Fault → Prop} :
    Ends (chooseDonor query other held : Chance σ (List Candidate × Option Tree))
      (fun chosen => ∀ donor, chosen.2 = some donor → ∃ path label grandchildren,
        donor = .expansion label grandchildren ∧ other.at? path = some donor ∧
          query.startDepth + path.length ≤ query.maxDepth ∧ query.accepts label = true) stops := by
  rw [chooseDonor, Query.refilled_eq]
  refine Ends.bind (Candidate.select_ends _) fun selected known => ?_
  cases selected with
  | none => exact Ends.nothing rfl
  | some candidate =>
    refine Ends.pure fun donor chosen => ?_
    obtain ⟨depthIs, inside, -, label, grandchildren, found, accepted⟩ :=
      Query.mem_collect_iff.mp (known.1 candidate rfl)
    have donorIs : donor = .expansion label grandchildren :=
      Option.some.inj (chosen.symm.trans found)
    exact ⟨candidate.path, label, grandchildren, donorIs, chosen, depthIs ▸ inside, accepted⟩

/-- Growing a node afresh rewrites it, or is abandoned. What grows is of the symbol of the node, at
its depth. -/
theorem replaceNode_ends (engine : Engine) (corpus : Corpus) (tree : Tree)
    (inhabited : (engine.sites tree).nodes ≠ []) :
    Ends (engine.replaceNode (engine.sites tree) tree : Chance σ Edited)
      (fun edited => edited.Turns tree (Applies engine corpus .replaceNode tree))
      (engine.Abandons tree) := by
  refine Ends.bind (Candidate.select_ends _) fun selected known => ?_
  cases selected with
  | none =>
    refine Ends.throw ?_
    rcases known.2 rfl with empty | weightless
    · exact absurd empty inhabited
    · exact ⟨inhabited, weightless⟩
  | some candidate =>
    obtain ⟨depthIs, inside, symbol, children, found⟩ := node_of_mem_nodes (known.1 candidate rfl)
    simp only [found, Option.bind_some, Tree.symbol?]
    refine Ends.bind ((Grammar.grow_ends engine.patience symbol candidate.depth).mono
      (fun _ grows => grows) fun _ => abandons_of_grammar) fun grown grows => ?_
    cases grown with
    | none => exact Ends.pure .unchanged
    | some new =>
      have grownHere := depthIs ▸ grows new rfl
      exact Ends.pure (.changed ⟨candidate.path, symbol, children, new, found, inside,
        .replaceNode new (.replaceNode new grownHere), Tree.replaceAt?_eq_some_putAt found new⟩)

/-- Splicing rewrites a node, and is never abandoned. It grows nothing, and that is the only thing
that could be. -/
theorem splice_ends (engine : Engine) (corpus : Corpus) (tree : Tree) (donors : List Candidate)
    {stops : Fault → Prop} :
    Ends (engine.splice corpus (engine.sites tree) tree donors : Chance σ Attempt)
      (fun attempt => attempt.edited.Turns tree (Applies engine corpus .splice tree)) stops := by
  refine Ends.bind (Candidate.select_ends _) fun selected known => ?_
  cases selected with
  | none => exact Ends.pure .unchanged
  | some candidate =>
    obtain ⟨depthIs, inside, symbol, children, found⟩ := node_of_mem_nodes (known.1 candidate rfl)
    refine Ends.bind (random_ends corpus) fun given knownGiven => ?_
    cases given with
    | none => exact Ends.pure .unchanged
    | some other =>
      simp only [found, Option.bind_some, Tree.symbol?]
      refine Ends.bind (chooseDonor_ends _ other donors) ?_
      rintro ⟨donors, donor?⟩ knownDonor
      cases donor? with
      | none => exact Ends.pure .unchanged
      | some donor =>
        obtain ⟨path, label, grandchildren, rfl, donorFound, donorInside, accepted⟩ :=
          knownDonor donor rfl
        have same : symbol.id = label.id := by
          simpa [Query.accepts, Symbol.same, query] using accepted
        have shallow : path.length ≤ candidate.path.length := by
          simpa [query, depthIs] using donorInside
        have rewrite : Rewrite engine corpus candidate.path.length symbol children .splice
            (.expansion label grandchildren) :=
          .splice other path label grandchildren (knownGiven other rfl) donorFound shallow
            same.symm
        exact Ends.pure (.changed ⟨candidate.path, symbol, children, _, found, inside,
          .splice _ rewrite, Tree.replaceAt?_eq_some_putAt found _⟩)

/-- Editing a repetition rewrites it, or is abandoned with the growth of an element or because the
elements would lie too deep. -/
theorem repeatMutator_ends (engine : Engine) (corpus : Corpus) (tree : Tree) :
    Ends (engine.repeatMutator (engine.sites tree) tree : Chance σ Edited)
      (fun edited => edited.Turns tree (Applies engine corpus .repeatMutator tree))
      (fun fault => engine.grammar.Abandons fault ∨
        fault = .depthUncountable ∧ Depth.greatest ≤ tree.innerHeight) := by
  refine Ends.bind (Candidate.select_ends _) fun selected known => ?_
  cases selected with
  | none => exact Ends.pure .unchanged
  | some candidate =>
    obtain ⟨depthIs, inside, symbol, children, found, repetition⟩ :=
      node_of_mem_repetitions (known.1 candidate rfl)
    obtain ⟨element, carried⟩ := Option.isSome_iff_exists.mp repetition
    simp only [found, Tree.children]
    refine Ends.bind (Chance.position_ends _) fun position drawn => ?_
    refine Ends.bind Chance.fraction_ends fun fraction _ => ?_
    have placed : position ≤ children.length := by omega
    refine Ends.bind ((editRepetition_ends engine carried candidate.depth placed _).mono
      (fun _ edited => edited) fun fault stop => ?_) fun edited known => ?_
    · rcases stop with abandons | ⟨rfl, uncountable⟩
      · exact .inl abandons
      · have deep := Nat.le_trans (depthIs ▸ uncountable) (Tree.length_le_innerHeight found)
        exact .inr ⟨rfl, deep⟩
    · refine Ends.pure ((known.within found).mono ?_)
      rintro result ⟨new, ⟨count, staged, does, grown, rfl⟩, replaced⟩
      rw [depthIs] at grown
      exact ⟨candidate.path, symbol, children, _, found, inside,
        .repeatMutator fraction element position count staged carried does grown, replaced⟩

/-- Copying into a repetition rewrites it, and is never abandoned. Its runs are measured by what
there is. -/
theorem repeatSplice_ends (engine : Engine) (corpus : Corpus) (tree : Tree)
    (donors : List Candidate) {stops : Fault → Prop} :
    Ends (engine.repeatSplice corpus (engine.sites tree) tree donors : Chance σ Attempt)
      (fun attempt => attempt.edited.Turns tree (Applies engine corpus .repeatSplice tree))
      stops := by
  refine Ends.bind (Candidate.select_ends _) fun selected known => ?_
  cases selected with
  | none => exact Ends.pure .unchanged
  | some candidate =>
    obtain ⟨depthIs, inside, symbol, children, found, repetition⟩ :=
      node_of_mem_repetitions (known.1 candidate rfl)
    refine Ends.bind (random_ends corpus) fun given knownGiven => ?_
    cases given with
    | none => exact Ends.pure .unchanged
    | some other =>
      simp only [found]
      refine Ends.bind (chooseDonor_ends _ other donors) ?_
      rintro ⟨donors, donor?⟩ knownDonor
      cases donor? with
      | none => exact Ends.pure .unchanged
      | some donor =>
        obtain ⟨path, label, grandchildren, rfl, donorFound, donorInside, accepted⟩ :=
          knownDonor donor rfl
        have agrees : symbol.id = label.id ∧ label.isRepetition = true := by
          simpa [Query.accepts, Symbol.same, query] using accepted
        have shallow : path.length ≤ candidate.path.length := by
          simpa [query, depthIs] using donorInside
        refine Ends.bind (Chance.position_ends _) fun position drawn => ?_
        refine Ends.bind (Chance.position_ends _) fun start starts => ?_
        refine Ends.bind Chance.fraction_ends fun fraction _ => ?_
        have placed : position ≤ children.length := by omega
        refine Ends.bind (spliceRepetition_ends engine _ placed start _) ?_
        rintro edited ⟨count, copied, within, run, rfl⟩
        exact Ends.pure (.changed ⟨candidate.path, symbol, children, _, found, inside,
          .repeatSplice label grandchildren position count start copied other path repetition
            agrees.2 (knownGiven other rfl) donorFound shallow agrees.1.symm within starts run,
          Tree.replaceAt?_eq_some_putAt found _⟩)

/-- An attempt rewrites one node of the tree, is refused and leaves the tree as it is, or is
abandoned. All that is known of requests comes back to this. -/
theorem apply_ends (engine : Engine) (corpus : Corpus) (strategy : Strategy) (tree : Tree)
    (donors : List Candidate) :
    Ends (engine.apply corpus strategy (engine.sites tree) tree donors : Chance σ Attempt)
      (fun attempt => attempt.edited.Turns tree (Applies engine corpus strategy tree))
      (engine.Abandons tree) := by
  cases strategy with
  | replaceNode =>
    simp only [apply]
    split
    · exact Ends.pure .unchanged
    · next inhabited =>
      refine Ends.bind (replaceNode_ends engine corpus tree (by simpa using inhabited))
        fun edited turns => Ends.pure ?_
      exact turns
  | splice => exact splice_ends engine corpus tree donors
  | repeatMutator =>
    have edits : Ends (engine.repeatMutator (engine.sites tree) tree : Chance σ Edited)
        (fun edited => edited.Turns tree (Applies engine corpus .repeatMutator tree))
        (engine.Abandons tree) := by
      refine (repeatMutator_ends engine corpus tree).mono (fun _ known => known) ?_
      rintro fault (abandons | ⟨rfl, deep⟩)
      · exact abandons_of_grammar abandons
      · exact .inr deep
    refine Ends.bind edits fun edited turns => Ends.pure ?_
    exact turns
  | repeatSplice => exact repeatSplice_ends engine corpus tree donors

end Engine

end Graft
