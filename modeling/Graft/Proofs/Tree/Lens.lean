import Graft.Proofs.Tree.Rendering

/-!
# Paths are lenses

To read at a path and to exchange what is there keep to the laws of a lens: what has
been put in is read, to put back what has been read changes nothing, and of two
exchanges at one path the second alone counts. Exchanges at two paths of which
neither goes on from the other do not meet, and may be made in either order. Reading
and exchanging know the same paths, in every tree.
-/

namespace Graft.Tree

/-- An exchange is possible exactly where the path leads somewhere. The two go down the tree alike
and fail at the same position. -/
theorem isSome_replaceAt? (tree : Tree) (path : Path) (new : Tree) :
    (tree.replaceAt? path new).isSome = (tree.at? path).isSome := by
  cases found : tree.at? path with
  | some old =>
    obtain ⟨result, replaced⟩ := exists_replaceAt? found new
    rw [replaced]
    rfl
  | none =>
    induction path generalizing tree with
    | nil => cases found
    | cons position path inductionHypothesis =>
      cases tree with
      | text octets => rfl
      | expansion symbol children =>
        cases placed : children[position]? with
        | none => simp only [replaceAt?, placed, Option.isSome_none]
        | some child =>
          rw [at?_cons, Tree.children, placed, Option.bind_some] at found
          simp only [replaceAt?, placed, Option.isSome_map]
          exact inductionHypothesis child found

/-- A path that goes on from another one goes on in the subtree that the other one leads to, or
leads nowhere if that does. -/
theorem at?_append (tree : Tree) (path further : Path) :
    tree.at? (path ++ further) = (tree.at? path).bind fun subtree => subtree.at? further := by
  induction path generalizing tree with
  | nil => rfl
  | cons position path inductionHypothesis =>
    rw [List.cons_append, at?_cons, at?_cons, Option.bind_assoc]
    exact Option.bind_congr fun child _ => inductionHypothesis child

/-- To put back what a path leads to changes nothing. On the way every node gets back the children
that it had. -/
theorem replaceAt?_at? {tree old : Tree} {path : Path} (found : tree.at? path = some old) :
    tree.replaceAt? path old = some tree := by
  induction path generalizing tree with
  | nil => exact congrArg some (Option.some.inj found).symm
  | cons position path inductionHypothesis =>
    rw [at?_cons] at found
    obtain ⟨child, placed, below⟩ := Option.bind_eq_some_iff.mp found
    cases tree with
    | text octets => cases placed
    | expansion symbol children =>
      rw [Tree.children] at placed
      obtain ⟨inside, rfl⟩ := List.getElem?_eq_some_iff.mp placed
      refine replaceAt?_cons_eq_some_iff.mpr
        ⟨symbol, children, _, _, rfl, placed, inductionHypothesis below, ?_⟩
      rw [List.set_getElem_self]

/-- Where a path leads somewhere the subtree there is exchanged. The value that stands for a path
that leads nowhere is not used then. -/
theorem replaceAt?_eq_some_putAt {tree old : Tree} {path : Path}
    (found : tree.at? path = some old) (new : Tree) :
    tree.replaceAt? path new = some (tree.putAt path new) := by
  obtain ⟨result, replaced⟩ := exists_replaceAt? found new
  rw [putAt, replaced, Option.getD_some]

/-- A tree is unchanged by what it already has at the path. An edit that hands back the node it was
given therefore leaves the whole tree as it was. -/
theorem putAt_at? {tree old : Tree} {path : Path} (found : tree.at? path = some old) :
    tree.putAt path old = tree := by
  rw [putAt, replaceAt?_at? found, Option.getD_some]

/-- A second exchange at the path of the first is all that counts. It puts its subtree where the
first one has put its own, and nothing else was changed. -/
theorem replaceAt?_replaceAt?_self {tree new result : Tree} {path : Path}
    (replaced : tree.replaceAt? path new = some result) (other : Tree) :
    result.replaceAt? path other = tree.replaceAt? path other := by
  induction path generalizing tree result with
  | nil => rfl
  | cons position path inductionHypothesis =>
    obtain ⟨symbol, children, child, renewed, rfl, placed, below, rfl⟩ :=
      replaceAt?_cons_eq_some_iff.mp replaced
    have inside : position < children.length := (List.getElem?_eq_some_iff.mp placed).1
    simp only [replaceAt?, placed, List.getElem?_set_self inside, inductionHypothesis below,
      List.set_set]

/-- Of two exchanges that stand aside from each other the second may be made first. The induction
is on the first path, up to the node where the two part. -/
theorem exists_replaceAt?_aside {path aside : Path} (notBelow : ¬ path <+: aside)
    (notAbove : ¬ aside <+: path) {tree new other result last : Tree}
    (replaced : tree.replaceAt? path new = some result)
    (further : result.replaceAt? aside other = some last) :
    ∃ between, tree.replaceAt? aside other = some between ∧
      between.replaceAt? path new = some last := by
  induction path generalizing tree aside result last with
  | nil => exact absurd List.nil_prefix notBelow
  | cons position path inductionHypothesis =>
    cases aside with
    | nil => exact absurd List.nil_prefix notAbove
    | cons first rest =>
      obtain ⟨symbol, children, child, renewed, rfl, placed, below, rfl⟩ :=
        replaceAt?_cons_eq_some_iff.mp replaced
      obtain ⟨_, _, found, changed, same, foundPlaced, furtherBelow, rfl⟩ :=
        replaceAt?_cons_eq_some_iff.mp further
      cases same
      have inside : position < children.length := (List.getElem?_eq_some_iff.mp placed).1
      by_cases together : position = first
      · subst together
        rw [List.getElem?_set_self inside] at foundPlaced
        obtain rfl : renewed = found := Option.some.inj foundPlaced
        obtain ⟨between, earlier, later⟩ := inductionHypothesis
          (fun goesOn => notBelow (List.cons_prefix_cons.mpr ⟨rfl, goesOn⟩))
          (fun goesOn => notAbove (List.cons_prefix_cons.mpr ⟨rfl, goesOn⟩)) below furtherBelow
        refine ⟨.expansion symbol (children.set position between), ?_, ?_⟩
        · exact replaceAt?_cons_eq_some_iff.mpr
            ⟨symbol, children, child, between, rfl, placed, earlier, rfl⟩
        · refine replaceAt?_cons_eq_some_iff.mpr ⟨symbol, children.set position between, between,
            changed, rfl, List.getElem?_set_self inside, later, ?_⟩
          rw [List.set_set, List.set_set]
      · -- The two part here, and each leaves the child of the other where it is.
        rw [List.getElem?_set_ne together] at foundPlaced
        refine ⟨.expansion symbol (children.set first changed), ?_, ?_⟩
        · exact replaceAt?_cons_eq_some_iff.mpr
            ⟨symbol, children, found, changed, rfl, foundPlaced, furtherBelow, rfl⟩
        · refine replaceAt?_cons_eq_some_iff.mpr ⟨symbol, children.set first changed, child,
            renewed, rfl, ?_, below, ?_⟩
          · rw [List.getElem?_set_ne (Ne.symm together), placed]
          · rw [List.set_comm _ _ together]

/-- Exchanges that stand aside from each other may be made in either order, and if one of them is
not possible they fail in either order. -/
theorem replaceAt?_comm {path aside : Path} (notBelow : ¬ path <+: aside)
    (notAbove : ¬ aside <+: path) (tree new other : Tree) :
    (tree.replaceAt? path new).bind (fun result => result.replaceAt? aside other) =
      (tree.replaceAt? aside other).bind fun result => result.replaceAt? path new := by
  ext last
  simp only [Option.bind_eq_some_iff]
  constructor
  · rintro ⟨result, replaced, further⟩
    exact exists_replaceAt?_aside notBelow notAbove replaced further
  · rintro ⟨result, replaced, further⟩
    exact exists_replaceAt?_aside notAbove notBelow replaced further

/-- Reading and exchanging at a path keep to the laws of a lens, and what stands around the path
is rendered by itself. Reading and exchanging know the same paths. Let a path lead to a subtree.
Then anything can be put in its place, and is read there afterwards, also by the paths that go on
from this one. A second exchange undoes the first, and to put back what was there changes nothing.
A path that neither goes on from this one nor ends above it leads to what it led to, and an
exchange there may come before or after. The number of nodes changes by the difference of the two
subtrees. The octets to the left and to the right of the path are the same whatever stands
there. -/
theorem paths_are_lenses (tree : Tree) (path : Path) :
    (∀ new, (tree.replaceAt? path new).isSome = (tree.at? path).isSome) ∧
    ∀ old, tree.at? path = some old →
      tree.replaceAt? path old = some tree ∧
      (∀ new, ∃ result, tree.replaceAt? path new = some result ∧
        result.at? path = some new ∧
        (∀ further, result.at? (path ++ further) = new.at? further) ∧
        (∀ other, result.replaceAt? path other = tree.replaceAt? path other) ∧
        (∀ aside, ¬ path <+: aside → ¬ aside <+: path →
          result.at? aside = tree.at? aside ∧
          ∀ other, result.replaceAt? aside other =
            (tree.replaceAt? aside other).bind fun between => between.replaceAt? path new) ∧
        result.count + old.count = tree.count + new.count) ∧
      ∃ before after : Bytes, ∀ new result, tree.replaceAt? path new = some result →
        result.render = before ++ new.render ++ after := by
  refine ⟨isSome_replaceAt? tree path, fun old found => ?_⟩
  refine ⟨replaceAt?_at? found, fun new => ?_, exists_render_replaceAt? found⟩
  obtain ⟨result, replaced⟩ := exists_replaceAt? found new
  have here : result.at? path = some new := at?_replaceAt?_self replaced
  refine ⟨result, replaced, here, fun further => ?_, replaceAt?_replaceAt?_self replaced,
    fun aside notBelow notAbove =>
      ⟨at?_replaceAt?_aside replaced notBelow notAbove, fun other => ?_⟩,
    count_replaceAt? found replaced⟩
  · rw [at?_append, here, Option.bind_some]
  · rw [← replaceAt?_comm notBelow notAbove, replaced, Option.bind_some]

/-- A pair beside a single letter, in parentheses. -/
def parenthesized : Tree :=
  .expansion (.plain 0 "root")
    [.text [40],
      .expansion (.plain 1 "pair") [.text [120], .text [121]],
      .expansion (.plain 1 "pair") [.text [122]],
      .text [41]]

/-- The pair is exchanged for a text, below which no path leads anywhere, and the letter beside it
stays. -/
theorem paths_are_lenses_parenthesized :
    parenthesized.at? [1] = some (.expansion (.plain 1 "pair") [.text [120], .text [121]]) ∧
    ∃ result, parenthesized.replaceAt? [1] (.text [33]) = some result ∧
      result.at? [1] = some (.text [33]) ∧ result.at? [1, 0] = none ∧
        result.at? [2, 0] = some (.text [122]) ∧ result.count + 3 = 8 + 1 ∧
          ∃ before after : Bytes, result.render = before ++ [33] ++ after ∧
            parenthesized.render = before ++ [120, 121] ++ after := by
  have found : parenthesized.at? [1] =
      some (.expansion (.plain 1 "pair") [.text [120], .text [121]]) := rfl
  obtain ⟨same, lens, before, after, surrounded⟩ := (paths_are_lenses parenthesized [1]).2 _ found
  obtain ⟨result, replaced, here, further, -, aside, count⟩ := lens (.text [33])
  refine ⟨found, result, replaced, here, further [0], ?_, count, before, after,
    surrounded _ result replaced, surrounded _ _ same⟩
  exact (aside [2, 0] (by decide) (by decide)).1

end Graft.Tree
