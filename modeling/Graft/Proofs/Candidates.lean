import Graft.Candidate
import Graft.Proofs.Outcome
import Graft.Proofs.Tree.Everywhere
import Graft.Proofs.Weighted

/-!
# Candidates of a tree

Every candidate that is collected names an inner node of the tree by its path, of
a symbol that the query accepts, at the depth that its path makes and no deeper
than the query reaches. The root of a tree is its first candidate.
-/

namespace Graft

namespace Tree

/-- A row has one level more than any of the inner nodes in it. Literals add none, for no step of a
collector goes down to them. -/
theorem innerHeight_lt_of_mem {child : Tree} {children : List Tree} (member : child ∈ children)
    (inner : child.isText = false) : child.innerHeight < innerHeightAll children := by
  induction children with
  | nil => cases member
  | cons first rest inductionHypothesis =>
    rw [innerHeightAll]
    rcases List.mem_cons.mp member with rfl | later
    · simp only [inner, Bool.false_eq_true, ↓reduceIte]
      omega
    · have below := inductionHypothesis later
      omega

/-- A path to an inner node goes down no more levels than there are. The induction is on the path,
one level to a position. -/
theorem length_le_innerHeight {tree : Tree} {path : Path} {symbol : Symbol}
    {children : List Tree} (found : tree.at? path = some (.expansion symbol children)) :
    path.length ≤ tree.innerHeight := by
  induction path generalizing tree with
  | nil => exact Nat.zero_le _
  | cons position path inductionHypothesis =>
    cases tree with
    | text octets => cases found
    | expansion label row =>
      simp only [at?] at found
      split at found
      · cases found
      · next child placed =>
        have inner : child.isText = false := by
          cases child with
          | text octets => cases path <;> cases found
          | expansion _ _ => rfl
        have below := innerHeight_lt_of_mem (List.mem_of_getElem? placed) inner
        have longest := inductionHypothesis found
        simp only [List.length_cons, innerHeight]
        omega

end Tree

namespace Query

/-- A weight divided once for each of so many levels, from the top. -/
def lowered (decay : Float) : (levels : Nat) → (weight : Float) → Float
  | 0, weight => weight
  | levels + 1, weight => lowered decay levels (weight / decay)

variable {query : Query}

/-- The candidates of a row of children are those of each child, seen from above: the position of
the child is put in front of the path. -/
theorem mem_candidatesBelow_iff {depth position : Nat} {weight : Float} {children : List Tree}
    {candidate : Candidate} :
    candidate ∈ query.candidatesBelow depth weight position children ↔
      ∃ offset child, children[offset]? = some child ∧
        ∃ inner ∈ query.candidatesFrom depth weight child,
          candidate = inner.below (position + offset) := by
  induction children generalizing position with
  | nil => simp [candidatesBelow]
  | cons first rest inductionHypothesis =>
    rw [candidatesBelow, List.mem_append, List.mem_map, inductionHypothesis]
    constructor
    · rintro (⟨inner, member, rfl⟩ | ⟨offset, child, placed, inner, member, rfl⟩)
      · exact ⟨0, first, rfl, inner, member, rfl⟩
      · refine ⟨offset + 1, child, placed, inner, member, ?_⟩
        rw [Nat.add_assoc, Nat.add_comm 1 offset]
    · rintro ⟨offset, child, placed, inner, member, rfl⟩
      cases offset with
      | zero =>
        obtain rfl := Option.some.inj placed
        exact .inl ⟨inner, member, rfl⟩
      | succ offset =>
        refine .inr ⟨offset, child, placed, inner, member, ?_⟩
        rw [Nat.add_assoc, Nat.add_comm 1 offset]

/-- A candidate of an inner node is the node itself, or lies below one of its children. There is
neither if the node is too deep already. -/
theorem mem_candidatesFrom_expansion_iff {depth : Nat} {weight : Float} {symbol : Symbol}
    {children : List Tree} {candidate : Candidate} :
    candidate ∈ query.candidatesFrom depth weight (.expansion symbol children) ↔
      depth ≤ query.maxDepth ∧
        (query.accepts symbol = true ∧ candidate = ⟨[], depth, weight⟩ ∨
          ∃ position child, children[position]? = some child ∧
            ∃ inner ∈ query.candidatesFrom (depth + 1) (weight / query.decay) child,
              candidate = inner.below position) := by
  rw [candidatesFrom]
  split
  · next tooDeep => simp [Nat.not_le_of_gt tooDeep]
  · next reached =>
    rw [List.mem_append, mem_candidatesBelow_iff]
    simp only [Nat.le_of_not_gt reached, true_and, Nat.zero_add]
    split
    · next accepted => simp [accepted]
    · next refused => simp [refused]

/-- The candidates are the inner nodes that the query accepts and reaches, each with the depth and
the weight that the length of its path makes. The induction is on the tree, since the weight is
handed down level by level and is no product that could be computed at once. -/
theorem mem_candidatesFrom_iff {depth : Nat} {weight : Float} {tree : Tree}
    {candidate : Candidate} :
    candidate ∈ query.candidatesFrom depth weight tree ↔
      candidate.depth = depth + candidate.path.length ∧ candidate.depth ≤ query.maxDepth ∧
        candidate.weight = lowered query.decay candidate.path.length weight ∧
          ∃ symbol children, tree.at? candidate.path = some (.expansion symbol children) ∧
            query.accepts symbol = true := by
  induction tree generalizing depth weight candidate with
  | text octets => cases candidate with
    | mk path _ _ => cases path <;> simp [candidatesFrom, Tree.at?]
  | expansion symbol children inductionHypothesis =>
    rw [mem_candidatesFrom_expansion_iff]
    obtain ⟨path, ownDepth, ownWeight⟩ := candidate
    constructor
    · rintro ⟨reached, ⟨accepted, here⟩ | ⟨position, child, placed, inner, member, below⟩⟩
      · cases here
        exact ⟨rfl, reached, rfl, symbol, children, rfl, accepted⟩
      · cases below
        obtain ⟨depthIs, inside, weightIs, found⟩ :=
          (inductionHypothesis child (List.mem_of_getElem? placed)).mp member
        refine ⟨?_, inside, weightIs, ?_⟩
        · simp only [List.length_cons]
          omega
        · simpa only [Candidate.below, Tree.at?, placed] using found
    · rintro ⟨depthIs, inside, weightIs, label, grandchildren, found, accepted⟩
      dsimp only at depthIs inside weightIs found
      refine ⟨by omega, ?_⟩
      cases path with
      | nil =>
        cases found
        rw [depthIs, weightIs]
        exact .inl ⟨accepted, rfl⟩
      | cons position path =>
        simp only [Tree.at?] at found
        split at found
        · cases found
        · next child placed =>
          refine .inr ⟨position, child, placed, ⟨path, ownDepth, ownWeight⟩, ?_, rfl⟩
          refine (inductionHypothesis child (List.mem_of_getElem? placed)).mpr ?_
          rw [List.length_cons] at depthIs
          exact ⟨by dsimp only; omega, inside, weightIs, label, grandchildren, found, accepted⟩

/-- The candidates of a tree are the inner nodes that the query accepts and reaches. This is the
general law at the root, with the depth and the weight that the query starts with. -/
theorem mem_collect_iff {tree : Tree} {candidate : Candidate} :
    candidate ∈ query.collect tree ↔
      candidate.depth = query.startDepth + candidate.path.length ∧
        candidate.depth ≤ query.maxDepth ∧
          candidate.weight = lowered query.decay candidate.path.length query.weight ∧
            ∃ symbol children, tree.at? candidate.path = some (.expansion symbol children) ∧
              query.accepts symbol = true :=
  mem_candidatesFrom_iff

end Query

namespace Candidate

open Graft.Random

variable {σ : Type} [Source σ] {stops : Fault → Prop}

/-- A candidate is chosen from the list without fail, and one is chosen unless the list is
empty or its weights add up to zero. -/
theorem select_ends (candidates : List Candidate) :
    Ends (select candidates : Chance σ (Option Candidate))
      (fun selected => (∀ candidate, selected = some candidate → candidate ∈ candidates) ∧
        (selected = none → candidates = [] ∨
          (Weighted.total (candidates.map Candidate.weight) == 0) = true)) stops := by
  simp only [select, Weighted.select]
  split
  · next weightless =>
    refine Ends.pure ⟨fun candidate selected => (by cases selected), fun _ => ?_⟩
    simpa using weightless
  · next weighted =>
    refine Ends.bind Chance.fraction_ends fun fraction _ => Ends.pure ?_
    have inhabited : candidates ≠ [] := by
      rintro rfl
      simp at weighted
    have inside := Weighted.indexFrom_lt
      (fraction * Weighted.total (candidates.map Candidate.weight)) 0
      (candidates.map Candidate.weight) (by simpa using inhabited)
    refine ⟨fun candidate selected => List.mem_of_getElem? selected, fun missing => ?_⟩
    rw [List.getElem?_eq_none_iff] at missing
    rw [List.length_map] at inside
    exact absurd inside (Nat.not_lt_of_le missing)

end Candidate

end Graft
