import Graft.Proofs.Tree.Everywhere
import Graft.Proofs.Tree.Exchange

/-!
# How deep a tree goes

The depth of an inner node is the length of its path and what is ascribed to the
root. A tree within a limit has its subtrees within it, from their own depths on,
and stays within it if what is put in place of a subtree is. A tree that is moved
further down needs as many levels more.
-/

namespace Graft.Tree

/-- No inner node lies below the limit, where the root has the given depth. -/
def DepthWithin (start limit : Nat) (tree : Tree) : Prop :=
  ∀ path symbol children, tree.at? path = some (.expansion symbol children) →
    start + path.length ≤ limit

/-- A leaf is within every limit, as only inner nodes have a depth. -/
theorem depthWithin_text (start limit : Nat) (octets : Bytes) :
    (text octets).DepthWithin start limit := by
  intro path symbol children found
  cases path <;> cases found

/-- An inner node is within a limit exactly if it does not lie below and its children are, from one
level further down. -/
theorem depthWithin_expansion {start limit : Nat} {symbol : Symbol} {children : List Tree} :
    (expansion symbol children).DepthWithin start limit ↔
      start ≤ limit ∧ ∀ child ∈ children, child.DepthWithin (start + 1) limit := by
  constructor
  · intro within
    refine ⟨within [] symbol children rfl, fun child member path label grandchildren found => ?_⟩
    obtain ⟨position, placed⟩ := List.mem_iff_getElem?.mp member
    have below := within (position :: path) label grandchildren (by
      rw [at?_cons, Tree.children, placed, Option.bind_some, found])
    rw [List.length_cons] at below
    omega
  · rintro ⟨here, below⟩ path label grandchildren found
    cases path with
    | nil => exact here
    | cons position path =>
      rw [at?_cons] at found
      obtain ⟨child, placed, further⟩ := Option.bind_eq_some_iff.mp found
      have deeper := below child (List.mem_of_getElem? placed) path label grandchildren further
      rw [List.length_cons]
      omega

variable {start limit : Nat} {tree : Tree}

/-- A tree that is moved down stays within a limit that is moved as far or further, because all of
its nodes are moved by the same number of levels. -/
theorem DepthWithin.shift {lower wider : Nat} (within : tree.DepthWithin start limit)
    (room : lower + limit ≤ start + wider) : tree.DepthWithin lower wider := by
  intro path symbol children found
  have inside := within path symbol children found
  omega

/-- A higher limit allows no less. Bounds of several parts are brought to one by this. -/
theorem DepthWithin.mono {wider : Nat} (within : tree.DepthWithin start limit)
    (more : limit ≤ wider) : tree.DepthWithin start wider :=
  within.shift (Nat.add_le_add_left more start)

/-- A subtree is within the limit from its own depth on, which is as much further down as the path
to it is long. -/
theorem DepthWithin.at? {subtree : Tree} {path : Path} (within : tree.DepthWithin start limit)
    (found : tree.at? path = some subtree) : subtree.DepthWithin (start + path.length) limit := by
  induction path generalizing tree start with
  | nil =>
    obtain rfl : tree = subtree := Option.some.inj found
    exact within
  | cons position path inductionHypothesis =>
    rw [at?_cons] at found
    obtain ⟨child, placed, further⟩ := Option.bind_eq_some_iff.mp found
    cases tree with
    | text octets => cases placed
    | expansion symbol children =>
      have below := (depthWithin_expansion.mp within).2 child (List.mem_of_getElem? placed)
      have subtreeWithin := inductionHypothesis below further
      rw [List.length_cons]
      exact subtreeWithin.shift (by omega)

/-- A tree stays within the limit if what is put in place of a subtree is, from the depth of the
subtree on. The nodes around it stay where they are. -/
theorem DepthWithin.replaceAt? {new result : Tree} {path : Path}
    (within : tree.DepthWithin start limit)
    (newWithin : new.DepthWithin (start + path.length) limit)
    (replaced : tree.replaceAt? path new = some result) : result.DepthWithin start limit := by
  induction path generalizing tree result start with
  | nil =>
    obtain rfl : new = result := Option.some.inj replaced
    exact newWithin
  | cons position path inductionHypothesis =>
    obtain ⟨symbol, children, child, renewed, rfl, placed, below, rfl⟩ :=
      replaceAt?_cons_eq_some_iff.mp replaced
    obtain ⟨here, childrenWithin⟩ := depthWithin_expansion.mp within
    have childWithin := childrenWithin child (List.mem_of_getElem? placed)
    rw [List.length_cons] at newWithin
    have renewedWithin := inductionHypothesis childWithin (newWithin.shift (by omega)) below
    refine depthWithin_expansion.mpr ⟨here, fun other member => ?_⟩
    rcases List.mem_or_eq_of_mem_set member with kept | rfl
    · exact childrenWithin other kept
    · exact renewedWithin

end Graft.Tree
