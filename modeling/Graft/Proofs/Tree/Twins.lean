import Graft.Candidate
import Graft.Proofs.Grammar.Renumbering
import Graft.Proofs.Sample.RoundTrip
import Graft.Proofs.Tree.Exchange

/-!
# One tree over two numberings

Two trees over the symbols of two grammars are twins if they are written alike:
they have one shape, equal leaves, and twins for symbols. Samples that two grammars
read are read as twins, and twins have one sample. What a path leads to in twins,
and what an exchange makes of them, are twins again, and the candidates in them
have the same paths, depths and weights.
-/

namespace Graft

namespace Tree

/-- Two trees, each over the symbols of its own grammar, that are written alike. -/
structure Twins (left right : Grammar) (tree other : Tree) : Prop where
  leftOver : tree.Over left
  rightOver : other.Over right
  written : tree.toWire = other.toWire

variable {left right : Grammar}

/-- Rows of trees are written alike if the trees in them are, one by one. Nothing of a tree runs
over into the next. -/
theorem toWires_eq_iff {trees others : List Tree} :
    toWires trees = toWires others ↔
      List.Forall₂ (fun tree other => tree.toWire = other.toWire) trees others := by
  induction trees generalizing others with
  | nil => cases others <;> simp [toWires]
  | cons tree rest inductionHypothesis =>
    cases others with
    | nil => simp [toWires]
    | cons other others => simp [toWires, inductionHypothesis]

/-- A leaf is its own twin, for it has no symbols that the grammars could number apart. -/
theorem twins_text (octets : Bytes) : Twins left right (.text octets) (.text octets) :=
  ⟨trivial, trivial, rfl⟩

/-- Twins over twins are twins: their names are equal, so that they are written alike if their
children are. -/
theorem twins_expansion {symbol other : Symbol} {children others : List Tree}
    (symbols : left.Twins right symbol other)
    (rows : List.Forall₂ (Twins left right) children others) :
    Twins left right (.expansion symbol children) (.expansion other others) := by
  obtain ⟨found, otherFound, named⟩ := symbols
  have each : (∀ child ∈ children, child.Over left) ∧ (∀ child ∈ others, child.Over right) ∧
      toWires children = toWires others := by
    rw [toWires_eq_iff]
    induction rows with
    | nil => simp
    | cons first _ inductionHypothesis =>
      obtain ⟨lefts, rights, written⟩ := inductionHypothesis
      exact ⟨List.forall_mem_cons.mpr ⟨first.leftOver, lefts⟩,
        List.forall_mem_cons.mpr ⟨first.rightOver, rights⟩, .cons first.written written⟩
  refine ⟨everywhere_expansion.mpr ⟨found, each.1⟩,
    everywhere_expansion.mpr ⟨otherFound, each.2.1⟩, ?_⟩
  rw [toWire, toWire, named, each.2.2]

/-- Twins are equal leaves, or twins over twins. A leaf and an inner node are not written alike. -/
theorem Twins.taken_apart {tree other : Tree} (twins : Twins left right tree other) :
    (∃ octets, tree = .text octets ∧ other = .text octets) ∨
      ∃ symbol twin children others, tree = .expansion symbol children ∧
        other = .expansion twin others ∧ left.Twins right symbol twin ∧
          List.Forall₂ (Twins left right) children others := by
  obtain ⟨leftOver, rightOver, written⟩ := twins
  cases tree with
  | text octets =>
    cases other with
    | text others =>
      cases written
      exact .inl ⟨octets, rfl, rfl⟩
    | expansion twin others => cases written
  | expansion symbol children =>
    cases other with
    | text octets => cases written
    | expansion twin others =>
      simp only [toWire, Wire.expansion.injEq] at written
      obtain ⟨found, below⟩ := everywhere_expansion.mp leftOver
      obtain ⟨otherFound, otherBelow⟩ := everywhere_expansion.mp rightOver
      refine .inr ⟨symbol, twin, children, others, rfl, rfl, ⟨found, otherFound, written.1⟩, ?_⟩
      have rows := toWires_eq_iff.mp written.2
      clear written found otherFound leftOver rightOver
      induction rows with
      | nil => exact .nil
      | cons first _ inductionHypothesis =>
        rw [List.forall_mem_cons] at below otherBelow
        exact .cons ⟨below.1, otherBelow.1, first⟩ (inductionHypothesis below.2 otherBelow.2)

/-- A sample that two grammars read is read as twins. Both trees are over the symbols of their
grammar, and both are written as the sample. -/
theorem twins_of_readSample (renumbered : left.Renumbered right) {sample : Bytes}
    {tree other : Tree}
    (read : left.readSample sample = .ok tree) (otherRead : right.readSample sample = .ok other) :
    Twins left right tree other := by
  obtain ⟨sampled, leftOver, storable⟩ :=
    (Grammar.readSample_eq_ok_iff renumbered.leftFormed).mp read
  obtain ⟨otherSampled, rightOver, otherStorable⟩ :=
    (Grammar.readSample_eq_ok_iff renumbered.rightFormed).mp otherRead
  have same : tree.toWire.write = other.toWire.write := sampled.trans otherSampled.symm
  have node : Sample.readNode tree.toWire.write =
      .ok (tree.toWire, ⟨[], Wire.write_nonempty tree.toWire⟩) :=
    Sample.readNode_eq_ok_iff.mpr ⟨(List.append_nil _).symm, storable⟩
  have otherNode : Sample.readNode tree.toWire.write =
      .ok (other.toWire, ⟨[], Wire.write_nonempty tree.toWire⟩) :=
    Sample.readNode_eq_ok_iff.mpr ⟨by rw [List.append_nil, same], otherStorable⟩
  have both := node.symm.trans otherNode
  simp only [Except.ok.injEq, Prod.mk.injEq, and_true] at both
  exact ⟨leftOver, rightOver, both⟩

namespace Twins

variable {tree other : Tree}

/-- Twins have one sample, as it is made of their written form alone. -/
theorem toSample_eq (twins : Twins left right tree other) : tree.toSample = other.toSample :=
  congrArg Wire.write twins.written

/-- Twins are inner nodes of twins, or both are leaves. An edit that looks at the symbol of a node
finds the same case in both trees. -/
theorem symbol? (twins : Twins left right tree other) :
    Option.Rel (left.Twins right) tree.symbol? other.symbol? := by
  obtain ⟨octets, rfl, rfl⟩ | ⟨symbol, twin, children, others, rfl, rfl, symbols, -⟩ :=
    twins.taken_apart
  · exact .none
  · exact .some symbols

/-- Twins have twins for children, and as many of them. A position among the children is a position
in both trees. -/
theorem children (twins : Twins left right tree other) :
    List.Forall₂ (Twins left right) tree.children other.children := by
  obtain ⟨octets, rfl, rfl⟩ | ⟨symbol, twin, children, others, rfl, rfl, -, rows⟩ :=
    twins.taken_apart
  · exact .nil
  · exact rows

/-- A path leads to twins, or nowhere in both. Positions count children, of which twins have equally
many at every node. -/
theorem at? (twins : Twins left right tree other) (path : Path) :
    Option.Rel (Twins left right) (tree.at? path) (other.at? path) := by
  induction path generalizing tree other with
  | nil => exact .some twins
  | cons position path inductionHypothesis =>
    rw [at?_cons, at?_cons]
    exact rel_bind (rel_getElem? twins.children position) fun _ _ below => inductionHypothesis below

/-- The inner nodes that a path leads to in twins are of twins. Where it leads to a leaf, or
nowhere, it does so in both. -/
theorem symbol_at? (twins : Twins left right tree other) (path : Path) :
    Option.Rel (left.Twins right) ((tree.at? path).bind Tree.symbol?)
      ((other.at? path).bind Tree.symbol?) :=
  rel_bind (twins.at? path) fun _ _ node => node.symbol?

/-- Twins put in the place of one path of twins make twins, if the path leads anywhere. On the way
every node keeps its symbol, and one of its children is changed in both. -/
theorem replaceAt? {new otherNew : Tree} (twins : Twins left right tree other)
    (news : Twins left right new otherNew) (path : Path) :
    Option.Rel (Twins left right) (tree.replaceAt? path new)
      (other.replaceAt? path otherNew) := by
  induction path generalizing tree other with
  | nil => exact .some news
  | cons position path inductionHypothesis =>
    obtain ⟨octets, rfl, rfl⟩ | ⟨symbol, twin, children, others, rfl, rfl, symbols, rows⟩ :=
      twins.taken_apart
    · exact .none
    · cases placed : children[position]? with
      | none =>
        have otherPlaced := rel_getElem? rows position
        rw [placed, rel_none_iff] at otherPlaced
        simp only [Tree.replaceAt?, placed, otherPlaced]
        exact .none
      | some child =>
        obtain ⟨otherChild, otherPlaced, below, change⟩ := forall₂_at rows placed
        simp only [Tree.replaceAt?, placed, otherPlaced]
        exact rel_map (inductionHypothesis below) fun renewed otherRenewed together =>
          twins_expansion symbols (change renewed otherRenewed together)

/-- Twins put in the place of one path of twins make twins, which are what they were if the path
leads nowhere. -/
theorem putAt {new otherNew : Tree} (twins : Twins left right tree other)
    (news : Twins left right new otherNew) (path : Path) :
    Twins left right (tree.putAt path new) (other.putAt path otherNew) := by
  unfold Tree.putAt
  obtain ⟨absent, otherAbsent⟩ | ⟨result, otherResult, replaced, otherReplaced, together⟩ :=
    rel_taken_apart (twins.replaceAt? news path)
  · rw [absent, otherAbsent]
    exact twins
  · rw [replaced, otherReplaced]
    exact together

end Twins

end Tree

namespace Query

variable {left right : Grammar}

/-- A query takes what the query for the twin of its symbol takes. Whether two symbols of a grammar
are the same is told from their numbers, and their twins have the same number just then. -/
theorem accepts_twins (renumbered : left.Renumbered right) (query : Query)
    {filter otherFilter : Option Symbol}
    (filters : Option.Rel (left.Twins right) filter otherFilter)
    {symbol other : Symbol} (twins : left.Twins right symbol other) :
    { query with filter }.accepts symbol = { query with filter := otherFilter }.accepts other := by
  simp only [accepts, renumbered.isRepetition twins]
  cases filters with
  | none => rfl
  | some wanted => simp only [Option.all_some, renumbered.same wanted twins]

/-- Two queries with one reach find the same candidates in twins if they take twins alike. A
candidate is a path, a depth and a weight, none of which the numbers of symbols enter into. -/
theorem candidatesFrom_twins {query otherQuery : Query}
    (accepts : ∀ symbol other, left.Twins right symbol other →
      query.accepts symbol = otherQuery.accepts other)
    (maxDepth : query.maxDepth = otherQuery.maxDepth) (decay : query.decay = otherQuery.decay)
    {tree other : Tree} (twins : Tree.Twins left right tree other) (depth : Nat) (weight : Float) :
    query.candidatesFrom depth weight tree = otherQuery.candidatesFrom depth weight other := by
  induction tree generalizing other depth weight with
  | text octets =>
    obtain ⟨_, -, rfl⟩ | ⟨_, _, _, _, absurd, -⟩ := twins.taken_apart
    · rfl
    · cases absurd
  | expansion symbol children inductionHypothesis =>
    obtain ⟨_, absurd, -⟩ | ⟨_, twin, _, others, same, rfl, symbols, rows⟩ := twins.taken_apart
    · cases absurd
    · cases same
      have below (position : Nat) :
          query.candidatesBelow (depth + 1) (weight / query.decay) position children =
            otherQuery.candidatesBelow (depth + 1) (weight / query.decay) position others := by
        clear twins symbols
        induction rows generalizing position with
        | nil => rfl
        | cons first _ rowHypothesis =>
          rw [candidatesBelow, candidatesBelow, inductionHypothesis _ List.mem_cons_self first,
            rowHypothesis fun child member =>
              inductionHypothesis child (List.mem_cons_of_mem _ member)]
      rw [candidatesFrom, candidatesFrom, maxDepth, accepts symbol twin symbols, below, decay]

/-- A query finds in a tree what the query for the twin of its symbol finds in the twin, in the same
order. So the same draw chooses the same path in both. -/
theorem collect_twins (renumbered : left.Renumbered right) (query : Query)
    {filter otherFilter : Option Symbol}
    (filters : Option.Rel (left.Twins right) filter otherFilter)
    {tree other : Tree} (twins : Tree.Twins left right tree other) :
    { query with filter }.collect tree = { query with filter := otherFilter }.collect other :=
  candidatesFrom_twins (fun _ _ => accepts_twins renumbered query filters) rfl rfl twins _ _

end Query

end Graft
