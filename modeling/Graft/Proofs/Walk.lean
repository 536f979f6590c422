import Graft.Proofs.Candidates
import Graft.Walk

/-!
# What a walk collects

A walk leaves its path as it found it and adds the candidates of the tree, seen from
the root of the walk, behind those it has met. It goes on to the end exactly if no
inner node that it would come to is deeper than depths are counted.
-/

namespace Graft

/-- The candidate as seen from the root of a walk, where the tree it was found in is at the end
of the trail. -/
def Candidate.under (trail : List Nat) (candidate : Candidate) : Candidate :=
  { candidate with path := trail.reverse ++ candidate.path }

/-- A candidate one level further down is seen from the root by a trail that is one longer. The
trail is kept backwards, which is why the position comes first in it. -/
theorem Candidate.under_below (trail : List Nat) (position : Nat) (candidate : Candidate) :
    (candidate.below position).under trail = candidate.under (position :: trail) := by
  simp only [under, below, List.reverse_cons, List.append_assoc, List.singleton_append]

namespace Walk

/-- The walk with candidates of the tree at hand met in a row. -/
def gather (candidates : List Candidate) (walk : Walk) : Walk :=
  { walk with met := (walk.met.toList ++ candidates.map (Candidate.under walk.trail)).toArray }

/-- Meeting nothing changes nothing. -/
@[simp] theorem gather_nil (walk : Walk) : walk.gather [] = walk := by
  simp [gather]

/-- Candidates that are met one after the other are met in a row, so that a walk over several
children meets one list. -/
theorem gather_gather (first second : List Candidate) (walk : Walk) :
    (walk.gather first).gather second = walk.gather (first ++ second) := by
  simp only [gather, List.map_append, List.append_assoc]

/-- To meet the node at hand is to gather it, with the empty path that it has as seen from
itself. -/
theorem meet_eq_gather (depth : Nat) (weight : Float) (walk : Walk) :
    walk.meet depth weight = walk.gather [⟨[], depth, weight⟩] := by
  have seen : (⟨[], depth, weight⟩ : Candidate).under walk.trail =
      ⟨walk.trail.reverse, depth, weight⟩ := by
    rw [Candidate.under, List.append_nil]
  rw [meet, gather, List.map_singleton, seen, ← Array.toList_push]

/-- What is gathered below a child is gathered from above after the way up. Each path is longer by
the position of the child. -/
theorem leave_gather_enter (position : Nat) (candidates : List Candidate) (walk : Walk) :
    ((walk.enter position).gather candidates).leave =
      walk.gather (candidates.map (Candidate.below position)) := by
  have seen : Candidate.under walk.trail ∘ Candidate.below position =
      Candidate.under (position :: walk.trail) :=
    funext fun candidate => Candidate.under_below walk.trail position candidate
  simp only [leave, gather, enter, List.tail_cons, List.map_map, seen]

end Walk

/-- A leaf adds no level to those below a node, as no walk goes down to it. -/
theorem Tree.innerHeightAll_text (octets : Bytes) (rest : List Tree) :
    innerHeightAll (.text octets :: rest) = innerHeightAll rest := by
  simp [innerHeightAll, isText]

/-- An inner child adds its own level to those below it, which the walk has to count. -/
theorem Tree.innerHeightAll_inner {child : Tree} (inner : child.isText = false)
    (rest : List Tree) :
    innerHeightAll (child :: rest) = max (child.innerHeight + 1) (innerHeightAll rest) := by
  simp [innerHeightAll, inner]

namespace Query

/-- An inner node would be visited whose depth is past the greatest one. -/
def Overruns (query : Query) (depth levels : Nat) : Prop :=
  Depth.greatest ≤ query.maxDepth ∧ Depth.greatest < depth + levels

instance (query : Query) (depth levels : Nat) : Decidable (query.Overruns depth levels) :=
  inferInstanceAs (Decidable (_ ∧ _))

variable {query : Query}

/-! ## Walks that come to an end -/

section Counting

variable {m : Type → Type} [Monad m] {lower : Nat → m Nat}

/-- Depths are counted one by one on all levels that a walk goes down from, so many levels
being below the depth it starts at. -/
def Counts (query : Query) (lower : Nat → m Nat) (depth levels : Nat) : Prop :=
  ∀ level, depth ≤ level → level < depth + levels → level ≤ query.maxDepth →
    lower level = pure (level + 1)

variable [LawfulMonad m]

/-- Before an inner child the walk goes down, as far as depths are counted, and after it up. The
count can fail, and then no later child is come to. -/
theorem visitChildren_inner {child : Tree} (inner : child.isText = false) (depth : Nat)
    (weight : Float) (position : Nat) (rest : List Tree) (walk : Walk) :
    (query.visitChildren lower depth weight position (child :: rest)).run walk =
      (do
        let below ← lower depth
        let (_, after) ← (query.visit lower below weight child).run (walk.enter position)
        (query.visitChildren lower depth weight (position + 1) rest).run after.leave) := by
  rw [visitChildren, inner]
  simp

/-- A walk over children meets the candidates of each of them in turn, if that is what a walk over
each of them does. The induction is on the row; every child but a text moves the walk on. -/
theorem visitChildren_gathers {children : List Tree}
    (each : ∀ child ∈ children, ∀ depth weight walk, query.Counts lower depth child.innerHeight →
      (query.visit lower depth weight child).run walk =
        pure ((), walk.gather (query.candidatesFrom depth weight child)))
    {depth : Nat} (weight : Float) (position : Nat) (walk : Walk)
    (counts : query.Counts lower depth (Tree.innerHeightAll children))
    (reached : depth ≤ query.maxDepth) :
    (query.visitChildren lower depth weight position children).run walk =
      pure ((), walk.gather (query.candidatesBelow (depth + 1) weight position children)) := by
  induction children generalizing position walk with
  | nil =>
    rw [candidatesBelow, Walk.gather_nil]
    rfl
  | cons child rest inductionHypothesis =>
    have others := inductionHypothesis fun other later => each other (List.mem_cons_of_mem _ later)
    cases child with
    | text octets =>
      rw [Tree.innerHeightAll_text] at counts
      rw [candidatesBelow, candidatesFrom, List.map_nil, List.nil_append, ← others _ _ counts]
      rfl
    | expansion symbol children =>
      have visited := each _ List.mem_cons_self
      have inner : (Tree.expansion symbol children).isText = false := rfl
      rw [Tree.innerHeightAll_inner inner] at counts
      generalize Tree.expansion symbol children = child at counts visited inner ⊢
      have below : query.Counts lower (depth + 1) child.innerHeight :=
        fun level above within => counts level (by omega) (by omega)
      have beside : query.Counts lower depth (Tree.innerHeightAll rest) :=
        fun level above within => counts level above (by omega)
      rw [visitChildren_inner inner, counts depth (Nat.le_refl depth) (by omega) reached,
        candidatesBelow]
      simp only [pure_bind, visited _ _ _ below, others _ _ beside, Walk.leave_gather_enter,
        Walk.gather_gather]

/-- A walk over a tree meets its candidates, if depths are counted on all its levels. The induction
is on the tree, and the walk before it may have met anything. -/
theorem visit_gathers (query : Query) (tree : Tree) {depth : Nat} (weight : Float) (walk : Walk)
    (counts : query.Counts lower depth tree.innerHeight) :
    (query.visit lower depth weight tree).run walk =
      pure ((), walk.gather (query.candidatesFrom depth weight tree)) := by
  induction tree generalizing depth weight walk with
  | text octets =>
    rw [candidatesFrom, Walk.gather_nil]
    rfl
  | expansion symbol children inductionHypothesis =>
    rw [candidatesFrom, visit]
    by_cases tooDeep : query.maxDepth < depth
    · simp only [tooDeep, ↓reduceIte, Walk.gather_nil]
      rfl
    · have after (found : List Candidate) :=
        visitChildren_gathers (fun child member depth weight walk =>
          inductionHypothesis child member weight walk) (weight / query.decay) 0
          (walk.gather found) counts (Nat.le_of_not_lt tooDeep)
      simp only [Walk.gather_gather] at after
      by_cases accepted : query.accepts symbol = true
      · simp [tooDeep, accepted, Walk.meet_eq_gather, after]
      · have none := after []
        rw [Walk.gather_nil] at none
        simp [tooDeep, accepted, none]

/-- A list is filled with the candidates of the tree, if depths are counted on all its levels.
What it held is forgotten. -/
theorem refillBy_run (query : Query) (tree : Tree) (held : List Candidate)
    (counts : query.Counts lower query.startDepth tree.innerHeight) :
    (query.refillBy lower tree).run held = pure (query.weight, query.collect tree) := by
  have seen : Candidate.under [] = id := rfl
  simp only [refillBy, StateT.run_bind, StateT.run_set, StateT.run_get, pure_bind]
  simp [visit_gathers query tree query.weight _ counts, Walk.gather, seen, collect]

end Counting

/-- A mutator fills its lists with the candidates of the tree, whatever they held. -/
@[simp] theorem refilled_eq (query : Query) (tree : Tree) (held : List Candidate) :
    query.refilled tree held = query.collect tree := by
  rw [refilled, refillBy_run query tree held fun level _ _ _ => rfl]
  rfl

/-! ## Walks that go too deep -/

/-- A walk that does not overrun counts its depths on all levels that it goes down from, as each of
them is less than the greatest. -/
theorem counts_of_not_overruns {depth levels : Nat} (within : ¬ query.Overruns depth levels) :
    query.Counts Depth.below depth levels := by
  intro level above inside reached
  have countable : level < Depth.greatest := by
    unfold Overruns at within
    omega
  rw [Depth.below, if_pos countable]
  rfl

/-- A walk over children that overruns with one of them is at fault. Those before it are walked
over to the end. -/
theorem visitChildren_overruns {children : List Tree}
    (each : ∀ child ∈ children, ∀ depth weight walk, depth ≤ Depth.greatest →
      query.Overruns depth child.innerHeight →
        (query.visit Depth.below depth weight child).run walk = .error .depthUncountable)
    {depth : Nat} (weight : Float) (position : Nat) (walk : Walk)
    (counted : depth ≤ Depth.greatest)
    (overruns : query.Overruns depth (Tree.innerHeightAll children)) :
    (query.visitChildren Depth.below depth weight position children).run walk =
      .error .depthUncountable := by
  induction children generalizing position walk with
  | nil =>
    obtain ⟨-, deeper⟩ := overruns
    rw [Tree.innerHeightAll] at deeper
    omega
  | cons child rest inductionHypothesis =>
    have others := inductionHypothesis fun other later => each other (List.mem_cons_of_mem _ later)
    cases child with
    | text octets =>
      rw [Tree.innerHeightAll_text] at overruns
      exact others (position + 1) walk overruns
    | expansion symbol children =>
      have fails := each _ List.mem_cons_self
      have inner : (Tree.expansion symbol children).isText = false := rfl
      rw [Tree.innerHeightAll_inner inner] at overruns
      generalize Tree.expansion symbol children = child at overruns fails inner ⊢
      rw [visitChildren_inner inner, Depth.below]
      by_cases countable : depth < Depth.greatest
      · rw [if_pos countable]
        by_cases deeper : query.Overruns (depth + 1) child.innerHeight
        · simp only [bind, Except.bind, fails _ _ _ countable deeper]
        · have beside : query.Overruns depth (Tree.innerHeightAll rest) := by
            unfold Overruns at overruns deeper ⊢
            omega
          have visited := visit_gathers query child weight (walk.enter position)
            (counts_of_not_overruns deeper)
          simp only [bind, Except.bind, visited, pure, Except.pure, others _ _ beside]
      · rw [if_neg countable]
        rfl

/-- A walk over a tree is at fault if it would come to an inner node past the greatest depth. A
maximum of the query that is below it stops the walk before, and then there is no fault. -/
theorem visit_overruns (query : Query) (tree : Tree) {depth : Nat} (weight : Float) (walk : Walk)
    (counted : depth ≤ Depth.greatest) (overruns : query.Overruns depth tree.innerHeight) :
    (query.visit Depth.below depth weight tree).run walk = .error .depthUncountable := by
  induction tree generalizing depth weight walk with
  | text octets =>
    obtain ⟨-, deeper⟩ := overruns
    rw [Tree.innerHeight] at deeper
    omega
  | expansion symbol children inductionHypothesis =>
    have reached : ¬ query.maxDepth < depth := by
      obtain ⟨unlimited, -⟩ := overruns
      omega
    have fails (walk : Walk) :=
      visitChildren_overruns (fun child member depth weight walk =>
        inductionHypothesis child member weight walk) (weight / query.decay) 0 walk counted overruns
    rw [visit]
    by_cases accepted : query.accepts symbol = true
    · simp only [reached, accepted, ↓reduceIte]
      exact fails _
    · simp only [reached, accepted, Bool.false_eq_true, ↓reduceIte]
      exact fails _

/-- Filling a list fails or succeeds as the collection does, and puts its candidates where the
list was. -/
theorem refill_run (query : Query) (tree : Tree) (held : List Candidate)
    (counted : query.startDepth ≤ Depth.greatest) :
    (query.refill tree).run held =
      (query.collectFrom tree).map fun candidates => (query.weight, candidates) := by
  by_cases overruns : query.Overruns query.startDepth tree.innerHeight
  · rw [collectFrom, if_pos (by exact overruns), refill, refillBy]
    simp only [StateT.run_bind, StateT.run_set, StateT.run_get, pure_bind,
      visit_overruns query tree query.weight _ counted overruns]
    rfl
  · rw [collectFrom, if_neg (by exact overruns), refill,
      refillBy_run query tree held (counts_of_not_overruns overruns)]
    rfl

/-! ## What is collected -/

/-- Candidates of children in a row are in order if those of each child are. Paths into different
children are told apart by their first position. -/
theorem candidatesBelow_pairwise {children : List Tree} {depth : Nat} {weight : Float}
    (each : ∀ child ∈ children,
      (query.candidatesFrom depth weight child).Pairwise (·.path < ·.path)) (position : Nat) :
    (query.candidatesBelow depth weight position children).Pairwise (·.path < ·.path) := by
  induction children generalizing position with
  | nil => exact List.Pairwise.nil
  | cons child rest inductionHypothesis =>
    rw [candidatesBelow, List.pairwise_append]
    constructor
    · rw [List.pairwise_map]
      apply (each child List.mem_cons_self).imp
      intro first second before
      exact List.cons_lt_cons_iff.mpr (.inr ⟨rfl, before⟩)
    constructor
    · exact inductionHypothesis (fun other later => each other (List.mem_cons_of_mem _ later)) _
    · intro first member second later
      obtain ⟨own, -, rfl⟩ := List.mem_map.mp member
      obtain ⟨offset, -, -, other, -, rfl⟩ := mem_candidatesBelow_iff.mp later
      have earlier : position < position + 1 + offset := by omega
      exact List.cons_lt_cons_iff.mpr (.inl earlier)

/-- Candidates are in preorder. A node comes before what is below it, as the empty path comes before
every other, and in particular none is listed twice. -/
theorem candidatesFrom_pairwise (query : Query) (depth : Nat) (weight : Float) (tree : Tree) :
    (query.candidatesFrom depth weight tree).Pairwise (·.path < ·.path) := by
  induction tree generalizing depth weight with
  | text octets => exact List.Pairwise.nil
  | expansion symbol children inductionHypothesis =>
    have below : (query.candidatesBelow (depth + 1) (weight / query.decay) 0 children).Pairwise
        (·.path < ·.path) :=
      candidatesBelow_pairwise (fun child member => inductionHypothesis child member _ _) 0
    rw [candidatesFrom]
    by_cases tooDeep : query.maxDepth < depth
    · rw [if_pos tooDeep]
      exact List.Pairwise.nil
    · rw [if_neg tooDeep]
      by_cases accepted : query.accepts symbol = true
      · rw [if_pos accepted, List.singleton_append]
        apply List.Pairwise.cons
        · intro candidate member
          obtain ⟨offset, -, -, inner, -, rfl⟩ := mem_candidatesBelow_iff.mp member
          exact List.nil_lt_cons _ _
        · exact below
      · rw [if_neg accepted, List.nil_append]
        exact below

/-- The query takes the node at a path: it is an inner node, no deeper than the query reaches, of
the symbol that is asked for, and of a repetition if only these are asked for. -/
def Takes (query : Query) (tree : Tree) (path : Path) : Prop :=
  query.startDepth + path.length ≤ query.maxDepth ∧
    ∃ symbol children, tree.at? path = some (.expansion symbol children) ∧
      (∀ filter, query.filter = some filter → filter.id = symbol.id) ∧
        (query.repetitionsOnly = true → symbol.isRepetition = true)

/-- A symbol is accepted for what it is and for its number. Its name does not matter, since symbols
are compared by number. -/
theorem accepts_iff {symbol : Symbol} :
    query.accepts symbol = true ↔
      (∀ filter, query.filter = some filter → filter.id = symbol.id) ∧
        (query.repetitionsOnly = true → symbol.isRepetition = true) := by
  cases only : query.repetitionsOnly <;>
    simp [accepts, only, Symbol.same, Option.all_eq_true]

/-- A list that is filled holds one candidate for each node that the query takes, in preorder,
with the depth and the weight that the length of its path makes. Nothing is left of what it held. -/
theorem refill_exact (query : Query) (tree : Tree) (held : List Candidate)
    (counted : query.startDepth + tree.innerHeight ≤ Depth.greatest) :
    ∃ candidates, (query.refill tree).run held = .ok (query.weight, candidates) ∧
      (candidates.map Candidate.path).Pairwise (· < ·) ∧
        (∀ path, path ∈ candidates.map Candidate.path ↔ query.Takes tree path) ∧
          ∀ candidate ∈ candidates,
            candidate.depth = query.startDepth + candidate.path.length ∧
              candidate.weight = lowered query.decay candidate.path.length query.weight := by
  have within : ¬ query.Overruns query.startDepth tree.innerHeight := by
    rintro ⟨-, deeper⟩
    omega
  have filled : (query.refill tree).run held = .ok (query.weight, query.collect tree) := by
    rw [refill_run query tree held (by omega), collectFrom, if_neg (by exact within)]
    rfl
  refine ⟨query.collect tree, filled, ?_, ?_, ?_⟩
  · exact List.pairwise_map.mpr (candidatesFrom_pairwise query _ _ tree)
  · intro path
    rw [List.mem_map]
    constructor
    · rintro ⟨candidate, member, rfl⟩
      obtain ⟨depthIs, inside, -, symbol, children, found, accepted⟩ := mem_collect_iff.mp member
      exact ⟨depthIs ▸ inside, symbol, children, found, accepts_iff.mp accepted⟩
    · rintro ⟨inside, symbol, children, found, accepted⟩
      have taken : (⟨path, query.startDepth + path.length,
          lowered query.decay path.length query.weight⟩ : Candidate) ∈ query.collect tree :=
        mem_collect_iff.mpr
          ⟨rfl, inside, rfl, symbol, children, found, accepts_iff.mpr accepted⟩
      exact ⟨_, taken, rfl⟩
  · intro candidate member
    obtain ⟨depthIs, -, weightIs, -⟩ := mem_collect_iff.mp member
    exact ⟨depthIs, weightIs⟩

/-- A row of two ones after a text. -/
def spacedOnes : Tree :=
  .expansion (.repetition 1 "ones" (.plain 0 "one"))
    [.text [32], .expansion (.plain 0 "one") [], .expansion (.plain 0 "one") [.text [49]]]

/-- Where something was held before, the ones are found behind the text and nothing else is. -/
theorem refill_exact_spacedOnes :
    let query : Query := { filter := some (.plain 0 "one"), startDepth := 3, maxDepth := 4 }
    query.startDepth + spacedOnes.innerHeight ≤ Depth.greatest ∧
      ∃ candidates,
        (query.refill spacedOnes).run [⟨[0], 4, 1⟩] = .ok (query.weight, candidates) ∧
          [1] ∈ candidates.map Candidate.path ∧ [2] ∈ candidates.map Candidate.path ∧
            [0] ∉ candidates.map Candidate.path ∧ [] ∉ candidates.map Candidate.path := by
  intro query
  have counted : query.startDepth + spacedOnes.innerHeight ≤ Depth.greatest := by decide
  obtain ⟨candidates, filled, -, taken, -⟩ :=
    refill_exact query spacedOnes [⟨[0], 4, 1⟩] counted
  refine ⟨counted, candidates, filled, ?_⟩
  simp [taken, Takes, spacedOnes, Tree.at?, Symbol.id, query]

end Query

end Graft
