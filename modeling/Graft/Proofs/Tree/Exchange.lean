import Graft.Tree.Path

/-!
# What the exchange of a subtree keeps

Where a subtree is exchanged, the new one stands at its path. Every other path is
of one of three kinds. It goes on from the path of the exchange, and then leads
into the new subtree; it stands aside, and then leads to what it led to; or it
ends above, and then leads to a node of the same symbol as before.
-/

namespace Graft.Tree

/-- A path goes on in the child that its first position names. A leaf has no children, and so no
path leads on from it. -/
theorem at?_cons (tree : Tree) (position : Nat) (path : Path) :
    tree.at? (position :: path) = tree.children[position]?.bind fun child => child.at? path := by
  cases tree with
  | text octets => rfl
  | expansion symbol children =>
    simp only [at?, Tree.children]
    cases children[position]? <;> rfl

/-- An exchange below the root is one in the child that the first position names, whose place the
changed child takes. Inductions on a path take their step with this law. -/
theorem replaceAt?_cons_eq_some_iff {tree new result : Tree} {position : Nat} {path : Path} :
    tree.replaceAt? (position :: path) new = some result ↔
      ∃ symbol children child renewed, tree = .expansion symbol children ∧
        children[position]? = some child ∧ child.replaceAt? path new = some renewed ∧
          .expansion symbol (children.set position renewed) = result := by
  cases tree with
  | text octets => simp [replaceAt?]
  | expansion symbol children =>
    cases placed : children[position]? with
    | none =>
      simp only [replaceAt?, placed, reduceCtorEq, false_iff]
      rintro ⟨_, _, child, _, same, elsewhere, -⟩
      cases same
      rw [placed] at elsewhere
      cases elsewhere
    | some child =>
      simp only [replaceAt?, placed, Option.map_eq_some_iff]
      constructor
      · rintro ⟨renewed, replaced, rfl⟩
        exact ⟨symbol, children, child, renewed, rfl, placed, replaced, rfl⟩
      · rintro ⟨_, _, other, renewed, same, found, replaced, rfl⟩
        cases same
        obtain rfl := Option.some.inj (placed.symm.trans found)
        exact ⟨renewed, replaced, rfl⟩

/-- Where a path leads somewhere an exchange is possible, whatever is put in: nothing is asked of
the new subtree. -/
theorem exists_replaceAt? {tree old : Tree} {path : Path} (found : tree.at? path = some old)
    (new : Tree) : ∃ result, tree.replaceAt? path new = some result := by
  induction path generalizing tree with
  | nil => exact ⟨new, rfl⟩
  | cons position path inductionHypothesis =>
    rw [at?_cons] at found
    obtain ⟨child, placed, below⟩ := Option.bind_eq_some_iff.mp found
    obtain ⟨renewed, replaced⟩ := inductionHypothesis below
    cases tree with
    | text octets => cases placed
    | expansion symbol children =>
      have exchanged := replaceAt?_cons_eq_some_iff.mpr
        ⟨symbol, children, child, renewed, rfl, placed, replaced, rfl⟩
      exact ⟨_, exchanged⟩

/-- A path through the child that has been set goes on in the new one, whichever child stood there
before. -/
theorem at?_set_self {symbol : Symbol} {children : List Tree} {child renewed : Tree}
    {position : Nat} (placed : children[position]? = some child) (path : Path) :
    (expansion symbol (children.set position renewed)).at? (position :: path) =
      renewed.at? path := by
  have inside : position < children.length := (List.getElem?_eq_some_iff.mp placed).1
  simp only [at?_cons, Tree.children, List.getElem?_set_self inside, Option.bind_some]

/-- A path through another child goes on as before, since a child that is set moves no other. -/
theorem at?_set_of_ne {symbol : Symbol} {children : List Tree} {renewed : Tree}
    {position other : Nat} (different : position ≠ other) (path : Path) :
    (expansion symbol (children.set position renewed)).at? (other :: path) =
      (expansion symbol children).at? (other :: path) := by
  simp only [at?_cons, Tree.children, List.getElem?_set_ne different]

/-- At the path of the exchange stands the new subtree. What stood there before the exchange plays
no part. -/
theorem at?_replaceAt?_self {tree new result : Tree} {path : Path}
    (replaced : tree.replaceAt? path new = some result) : result.at? path = some new := by
  induction path generalizing tree result with
  | nil => exact replaced.symm
  | cons position path inductionHypothesis =>
    obtain ⟨symbol, children, child, renewed, rfl, placed, below, rfl⟩ :=
      replaceAt?_cons_eq_some_iff.mp replaced
    rw [at?_set_self placed]
    exact inductionHypothesis below

/-- A path that does not go on from that of the exchange leads to a node of the symbol of the node
that it led to. Above the exchange only children change, and aside from it nothing does. -/
theorem symbol?_at?_replaceAt? {tree new result : Tree} {path other : Path}
    (replaced : tree.replaceAt? path new = some result) (notBelow : ¬ path <+: other) :
    (result.at? other).map symbol? = (tree.at? other).map symbol? := by
  induction path generalizing tree result other with
  | nil => exact absurd List.nil_prefix notBelow
  | cons position path inductionHypothesis =>
    obtain ⟨symbol, children, child, renewed, rfl, placed, below, rfl⟩ :=
      replaceAt?_cons_eq_some_iff.mp replaced
    cases other with
    | nil => rfl
    | cons first rest =>
      by_cases same : position = first
      · subst same
        rw [at?_set_self placed, at?_cons, Tree.children, placed, Option.bind_some]
        refine inductionHypothesis below fun further => notBelow ?_
        exact List.cons_prefix_cons.mpr ⟨rfl, further⟩
      · rw [at?_set_of_ne same]

/-- A path that neither goes on from that of the exchange nor ends above it leads to the
subtree that it led to. -/
theorem at?_replaceAt?_aside {tree new result : Tree} {path other : Path}
    (replaced : tree.replaceAt? path new = some result) (notBelow : ¬ path <+: other)
    (notAbove : ¬ other <+: path) : result.at? other = tree.at? other := by
  induction path generalizing tree result other with
  | nil => exact absurd List.nil_prefix notBelow
  | cons position path inductionHypothesis =>
    obtain ⟨symbol, children, child, renewed, rfl, placed, below, rfl⟩ :=
      replaceAt?_cons_eq_some_iff.mp replaced
    cases other with
    | nil => exact absurd List.nil_prefix notAbove
    | cons first rest =>
      by_cases same : position = first
      · subst same
        rw [at?_set_self placed, at?_cons, Tree.children, placed, Option.bind_some]
        refine inductionHypothesis below (fun further => notBelow ?_) fun shorter => notAbove ?_
        · exact List.cons_prefix_cons.mpr ⟨rfl, further⟩
        · exact List.cons_prefix_cons.mpr ⟨rfl, shorter⟩
      · rw [at?_set_of_ne same]

/-- One tree is another one with the inner node at a path exchanged for an inner node of the
same symbol. -/
structure ExchangedAt (path : Path) (tree result : Tree) : Prop where
  /-- The node at the path is exchanged for one whose symbol has the same number. -/
  node : ∃ symbol children label grandchildren,
    tree.at? path = some (.expansion symbol children) ∧ label.id = symbol.id ∧
      tree.replaceAt? path (.expansion label grandchildren) = some result ∧
        result.at? path = some (.expansion label grandchildren)
  /-- A path that does not go on from this one leads to a node of the same symbol, or leads
  nowhere in both trees. -/
  symbols : ∀ other, ¬ path <+: other →
    (result.at? other).map symbol? = (tree.at? other).map symbol?
  /-- A path that stands aside leads to the same subtree. -/
  subtrees : ∀ other, ¬ path <+: other → ¬ other <+: path → result.at? other = tree.at? other

/-- To replace an inner node by one of the same symbol is to exchange it. Of the three things to be
shown only the first depends on what is put in. -/
theorem exchangedAt_of_replaceAt? {tree result : Tree} {path : Path} {symbol label : Symbol}
    {children grandchildren : List Tree} (found : tree.at? path = some (.expansion symbol children))
    (same : label.id = symbol.id)
    (replaced : tree.replaceAt? path (.expansion label grandchildren) = some result) :
    ExchangedAt path tree result where
  node := ⟨symbol, children, label, grandchildren, found, same, replaced,
    at?_replaceAt?_self replaced⟩
  symbols := fun _ notBelow => symbol?_at?_replaceAt? replaced notBelow
  subtrees := fun _ notBelow notAbove => at?_replaceAt?_aside replaced notBelow notAbove

end Graft.Tree
