import Graft.Proofs.Tree.Exchange

/-!
# What the exchange of a subtree renders to

A row of trees renders to its parts one after the other, and has as many nodes as
its parts together. So what surrounds the node at a path, to the left and to the
right, is rendered the same whatever stands there, and the number of nodes differs
by the difference of the two subtrees.
-/

namespace Graft.Tree

/-- A row renders to what its trees render to, one after the other, with nothing put between
them. -/
theorem renderAll_eq_flatten (trees : List Tree) :
    renderAll trees = (trees.map render).flatten := by
  induction trees with
  | nil => rfl
  | cons tree rest inductionHypothesis =>
    rw [renderAll, inductionHypothesis, List.map_cons, List.flatten_cons]

/-- What is rendered before and after a child of a row does not depend on the child. It is the
rendering of the children on its left and of those on its right. -/
theorem renderAll_set {children : List Tree} {position : Nat} {child : Tree}
    (placed : children[position]? = some child) (renewed : Tree) :
    renderAll (children.set position renewed) =
      renderAll (children.take position) ++ renewed.render ++
        renderAll (children.drop (position + 1)) := by
  have inside : position < children.length := (List.getElem?_eq_some_iff.mp placed).1
  rw [List.set_eq_take_append_cons_drop, if_pos inside]
  simp only [renderAll_eq_flatten, List.map_append, List.map_cons, List.flatten_append,
    List.flatten_cons, List.append_assoc]

/-- A row gains the nodes of the child that is put in and loses those of the one that stood there.
Counts are added on both sides, as one of them may be the greater. -/
theorem countAll_set {children : List Tree} {position : Nat} {child : Tree}
    (placed : children[position]? = some child) (renewed : Tree) :
    countAll (children.set position renewed) + child.count =
      countAll children + renewed.count := by
  induction children generalizing position with
  | nil => cases placed
  | cons first rest inductionHypothesis =>
    cases position with
    | zero =>
      obtain rfl : first = child := Option.some.inj placed
      simp only [List.set_cons_zero, countAll]
      omega
    | succ position =>
      have below := inductionHypothesis placed
      simp only [List.set_cons_succ, countAll]
      omega

/-- The octets to the left and to the right of a path are the same whatever stands there. The
induction goes down the path, and at each node the siblings are added on either side. -/
theorem exists_render_replaceAt? {tree old : Tree} {path : Path}
    (found : tree.at? path = some old) :
    ∃ before after : Bytes, ∀ new result, tree.replaceAt? path new = some result →
      result.render = before ++ new.render ++ after := by
  induction path generalizing tree with
  | nil =>
    refine ⟨[], [], fun new result replaced => ?_⟩
    obtain rfl : new = result := Option.some.inj replaced
    rw [List.nil_append, List.append_nil]
  | cons position path inductionHypothesis =>
    rw [at?_cons] at found
    obtain ⟨child, placed, further⟩ := Option.bind_eq_some_iff.mp found
    obtain ⟨before, after, surrounded⟩ := inductionHypothesis further
    refine ⟨renderAll (tree.children.take position) ++ before,
      after ++ renderAll (tree.children.drop (position + 1)), fun new result replaced => ?_⟩
    obtain ⟨symbol, children, other, renewed, rfl, otherPlaced, below, rfl⟩ :=
      replaceAt?_cons_eq_some_iff.mp replaced
    obtain rfl : child = other := Option.some.inj (placed.symm.trans otherPlaced)
    calc render (.expansion symbol (children.set position renewed))
      _ = renderAll (children.take position) ++ renewed.render ++
          renderAll (children.drop (position + 1)) := renderAll_set placed renewed
      _ = _ := by
        rw [surrounded new renewed below]
        simp only [Tree.children, List.append_assoc]

/-- An exchange changes the number of nodes by the difference of the two subtrees. It is stated as a
sum, for the difference may be of either sign. -/
theorem count_replaceAt? {tree old new result : Tree} {path : Path}
    (found : tree.at? path = some old) (replaced : tree.replaceAt? path new = some result) :
    result.count + old.count = tree.count + new.count := by
  induction path generalizing tree result with
  | nil =>
    obtain rfl : tree = old := Option.some.inj found
    obtain rfl : new = result := Option.some.inj replaced
    exact Nat.add_comm _ _
  | cons position path inductionHypothesis =>
    obtain ⟨symbol, children, child, renewed, rfl, placed, below, rfl⟩ :=
      replaceAt?_cons_eq_some_iff.mp replaced
    rw [at?_cons, Tree.children, placed, Option.bind_some] at found
    have inside := inductionHypothesis found below
    have row := countAll_set placed renewed
    simp only [count]
    omega

end Graft.Tree
