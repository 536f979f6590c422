import Graft.Tree.Path

/-!
# Conditions on every inner node

Most of what is promised about trees is a condition on an inner node, its symbol
and its children, that holds at every inner node. Such a condition passes to
subtrees. It survives the exchange of a subtree if the new one meets it as well
and the node above cannot tell the two apart: of its inner children a shallow
condition sees only the symbols at their roots.
-/

namespace Graft.Tree

/-- Induction over trees, with the hypothesis for every child of a node. It is drawn from the
recursor, whose second motive is about rows. -/
@[induction_eliminator]
theorem induct {motive : Tree → Prop} (text : ∀ octets, motive (.text octets))
    (expansion : ∀ symbol children,
      (∀ child ∈ children, motive child) → motive (.expansion symbol children))
    (tree : Tree) : motive tree := by
  refine @Tree.rec motive (fun children => ∀ child ∈ children, motive child)
    text expansion ?empty ?row tree
  case empty => simp
  case row =>
    intro first rest firstHypothesis restHypothesis child member
    rcases List.mem_cons.mp member with rfl | later
    · exact firstHypothesis
    · exact restHypothesis child later

mutual

/-- Every inner node satisfies a condition on its symbol and its children. -/
def Everywhere (holds : Symbol → List Tree → Prop) : Tree → Prop
  | .text _ => True
  | .expansion symbol children => holds symbol children ∧ EverywhereAll holds children

/-- Every inner node of the trees in a row satisfies a condition. -/
def EverywhereAll (holds : Symbol → List Tree → Prop) : List Tree → Prop
  | [] => True
  | tree :: rest => Everywhere holds tree ∧ EverywhereAll holds rest

end

section Decisions

variable {holds : Symbol → List Tree → Prop}
  [∀ symbol children, Decidable (holds symbol children)]

mutual

/-- Decide whether every inner node satisfies a condition. -/
def decEverywhere : (tree : Tree) → Decidable (tree.Everywhere holds)
  | .text _ => inferInstanceAs (Decidable True)
  | .expansion symbol children =>
    have : Decidable (EverywhereAll holds children) := decEverywhereAll children
    inferInstanceAs (Decidable (holds symbol children ∧ EverywhereAll holds children))

/-- Decide the same for the trees in a row. -/
def decEverywhereAll : (trees : List Tree) → Decidable (EverywhereAll holds trees)
  | [] => inferInstanceAs (Decidable True)
  | tree :: rest =>
    have : Decidable (tree.Everywhere holds) := decEverywhere tree
    have : Decidable (EverywhereAll holds rest) := decEverywhereAll rest
    inferInstanceAs (Decidable (tree.Everywhere holds ∧ EverywhereAll holds rest))

end

instance (tree : Tree) : Decidable (tree.Everywhere holds) := decEverywhere tree

end Decisions

variable {holds : Symbol → List Tree → Prop}

/-- A row satisfies what each of its trees does, in whatever order they stand. -/
theorem everywhereAll_iff {trees : List Tree} :
    EverywhereAll holds trees ↔ ∀ tree ∈ trees, tree.Everywhere holds := by
  induction trees with
  | nil => simp [EverywhereAll]
  | cons tree rest inductionHypothesis => simp [EverywhereAll, inductionHypothesis]

/-- A leaf has no inner node, so that any condition on inner nodes holds everywhere in it. -/
@[simp] theorem everywhere_text {octets : Bytes} : (text octets).Everywhere holds := trivial

/-- The condition holds everywhere in a node exactly if it holds at the node itself and everywhere
in its children, which need not be inner nodes. -/
@[simp] theorem everywhere_expansion {symbol : Symbol} {children : List Tree} :
    (expansion symbol children).Everywhere holds ↔
      holds symbol children ∧ ∀ child ∈ children, child.Everywhere holds := by
  simp only [Everywhere, everywhereAll_iff]

/-- A weaker condition holds everywhere as well, as the nodes that are looked at are the same. -/
theorem Everywhere.mono {weaker : Symbol → List Tree → Prop} {tree : Tree}
    (everywhere : tree.Everywhere holds)
    (weakens : ∀ symbol children, holds symbol children → weaker symbol children) :
    tree.Everywhere weaker := by
  induction tree with
  | text octets => trivial
  | expansion symbol children inductionHypothesis =>
    obtain ⟨here, below⟩ := everywhere_expansion.mp everywhere
    refine everywhere_expansion.mpr ⟨weakens symbol children here, ?_⟩
    exact fun child member => inductionHypothesis child member (below child member)

/-- What a path leads to is a subtree, and the condition holds everywhere in it. Each position of
the path picks a child, which satisfies the condition with its parent. -/
theorem Everywhere.at? {tree subtree : Tree} {path : Path} (everywhere : tree.Everywhere holds)
    (found : tree.at? path = some subtree) : subtree.Everywhere holds := by
  induction path generalizing tree with
  | nil =>
    obtain rfl : tree = subtree := by simpa [Tree.at?] using found
    exact everywhere
  | cons position path inductionHypothesis =>
    cases tree with
    | text octets => simp [Tree.at?] at found
    | expansion symbol children =>
      simp only [Tree.at?] at found
      split at found
      · cases found
      · next child placed =>
        have below := (everywhere_expansion.mp everywhere).2
        exact inductionHypothesis (below child (List.mem_of_getElem? placed)) found

/-- The symbol at the root stays if the subtrees exchanged have the same symbol. Only an exchange at
the root could change it. -/
theorem symbol?_replaceAt? {tree old new result : Tree} {path : Path}
    (found : tree.at? path = some old) (same : new.symbol? = old.symbol?)
    (replaced : tree.replaceAt? path new = some result) : result.symbol? = tree.symbol? := by
  cases path with
  | nil =>
    obtain rfl : tree = old := by simpa [Tree.at?] using found
    obtain rfl : new = result := by simpa [replaceAt?] using replaced
    exact same
  | cons position path =>
    cases tree with
    | text octets => simp [replaceAt?] at replaced
    | expansion symbol children =>
      simp only [replaceAt?] at replaced
      split at replaced
      · cases replaced
      · obtain ⟨child, -, rfl⟩ := Option.map_eq_some_iff.mp replaced
        rfl

/-- A condition that sees of an inner child only the symbol at its root. -/
def Shallow (holds : Symbol → List Tree → Prop) : Prop :=
  ∀ (symbol : Symbol) (children : List Tree) (position : Nat) (old new : Tree),
    children[position]? = some old → old.symbol? ≠ none → new.symbol? = old.symbol? →
      holds symbol children → holds symbol (children.set position new)

/-- A shallow condition survives the exchange of an inner node for another one of the
same symbol. The induction follows the path: at its end stands the new tree, and every
node on the way sees a child whose symbol is what it was. -/
theorem Everywhere.replaceAt? {tree old new result : Tree} {path : Path}
    (shallow : Shallow holds) (everywhere : tree.Everywhere holds)
    (newEverywhere : new.Everywhere holds) (found : tree.at? path = some old)
    (inner : old.symbol? ≠ none) (same : new.symbol? = old.symbol?)
    (replaced : tree.replaceAt? path new = some result) : result.Everywhere holds := by
  induction path generalizing tree result with
  | nil =>
    obtain rfl : new = result := by simpa [Tree.replaceAt?] using replaced
    exact newEverywhere
  | cons position path inductionHypothesis =>
    cases tree with
    | text octets => simp [Tree.replaceAt?] at replaced
    | expansion symbol children =>
      obtain ⟨here, below⟩ := everywhere_expansion.mp everywhere
      simp only [Tree.replaceAt?] at replaced
      simp only [Tree.at?] at found
      split at found
      · cases found
      · next child placed =>
        simp only [placed] at replaced
        obtain ⟨renewed, childReplaced, rfl⟩ := Option.map_eq_some_iff.mp replaced
        have childBelow := below child (List.mem_of_getElem? placed)
        have renewedBelow := inductionHypothesis childBelow found childReplaced
        have renewedSymbol : renewed.symbol? = child.symbol? :=
          symbol?_replaceAt? found same childReplaced
        have childInner : child.symbol? ≠ none := by
          cases path with
          | nil =>
            obtain rfl : child = old := by simpa [Tree.at?] using found
            exact inner
          | cons next path =>
            cases child with
            | text octets => simp [Tree.at?] at found
            | expansion label grandchildren => simp [symbol?]
        refine everywhere_expansion.mpr ⟨?_, fun other member => ?_⟩
        · exact shallow symbol children position child renewed placed childInner renewedSymbol here
        · rcases List.mem_or_eq_of_mem_set member with present | rfl
          · exact below other present
          · exact renewedBelow

end Graft.Tree
