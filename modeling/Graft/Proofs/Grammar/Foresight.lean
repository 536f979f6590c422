import Graft.Proofs.Grammar.Wording

/-!
# Grammars without ambiguity

A rendering determines its tree if at every place of a row, and before every element
of a run, a glimpse of the octets ahead tells what stands there. What may be glimpsed
at the beginning of a symbol and behind it is told by an outlook. That an outlook
guides through a grammar is decided from its productions alone: behind a symbol of a
row stands what may follow it, rows part where they are seen to be apart, and so does
another element of a run from the end of the run.
-/

namespace Graft

/-! ## Glimpses -/

/-- What is seen of octets without reading them to the end. -/
inductive Glimpse where
  /-- They begin with these. -/
  | front (octets : Bytes)
  /-- There are none. -/
  | nothing
deriving DecidableEq

namespace Glimpse

/-- The glimpse is one of the octets. -/
def Of : Glimpse → Bytes → Prop
  | front octets, text => octets <+: text
  | nothing, text => text = []

/-- Two glimpses cannot be of the same octets. -/
def Apart : Glimpse → Glimpse → Prop
  | front octets, front others => ¬ octets <+: others ∧ ¬ others <+: octets
  | front octets, nothing => octets ≠ []
  | nothing, front octets => octets ≠ []
  | nothing, nothing => False

instance : (left right : Glimpse) → Decidable (left.Apart right)
  | front octets, front others =>
    inferInstanceAs (Decidable (¬ octets <+: others ∧ ¬ others <+: octets))
  | front octets, nothing => inferInstanceAs (Decidable (octets ≠ []))
  | nothing, front octets => inferInstanceAs (Decidable (octets ≠ []))
  | nothing, nothing => inferInstanceAs (Decidable False)

/-- Glimpses that are apart are of different octets. One of them sees an octet that the other one
does not allow, or an end where there is an octet. -/
theorem Apart.different {left right : Glimpse} (apart : left.Apart right) {text : Bytes}
    (seen : left.Of text) (also : right.Of text) : False := by
  cases left with
  | front octets =>
    cases right with
    | front others =>
      rcases List.prefix_or_prefix_of_prefix seen also with shorter | longer
      · exact apart.1 shorter
      · exact apart.2 longer
    | nothing =>
      obtain rfl : text = [] := also
      exact apart (List.prefix_nil.mp seen)
  | nothing =>
    obtain rfl : text = [] := seen
    cases right with
    | front others => exact apart (List.prefix_nil.mp also)
    | nothing => exact apart

/-- One of the glimpses is of the octets. -/
def Some (glimpses : List Glimpse) (text : Bytes) : Prop :=
  ∃ glimpse ∈ glimpses, glimpse.Of text

/-- No glimpse of the first kind is of the same octets as one of the second kind. -/
def AllApart (lefts rights : List Glimpse) : Prop :=
  ∀ left ∈ lefts, ∀ right ∈ rights, left.Apart right

instance (lefts rights : List Glimpse) : Decidable (AllApart lefts rights) :=
  inferInstanceAs (Decidable (∀ left ∈ lefts, ∀ right ∈ rights, left.Apart right))

variable {lefts rights : List Glimpse} {text : Bytes}

/-- Octets of which there is a glimpse among some have one among more, as it is the same glimpse. -/
theorem Some.mono (seen : Some lefts text) (within : lefts ⊆ rights) : Some rights text := by
  obtain ⟨glimpse, member, shows⟩ := seen
  exact ⟨glimpse, within member, shows⟩

/-- There are no octets of which there are glimpses of two kinds that are apart, for each of the one
is apart from each of the other. -/
theorem AllApart.different (apart : AllApart lefts rights) (seen : Some lefts text)
    (also : Some rights text) : False := by
  obtain ⟨left, leftMember, ofLeft⟩ := seen
  obtain ⟨right, rightMember, ofRight⟩ := also
  exact (apart left leftMember right rightMember).different ofLeft ofRight

end Glimpse

open Glimpse (AllApart)

/-! ## Outlooks -/

/-- What may be glimpsed at the beginning of a symbol, whatever follows it, and behind it. -/
structure Outlook where
  first : Nat → List Glimpse
  follow : Nat → List Glimpse

namespace Outlook

variable (outlook : Outlook) (behind : List Glimpse)

/-- What may be glimpsed at the beginning of a row, given what may be behind it. -/
def look : List Part → List Glimpse
  | [] => behind
  | .literal octets :: _ => [.front octets]
  | .symbol id :: _ => outlook.first id

/-- What stands behind each symbol of a row may follow it. -/
def Leads : List Part → Prop
  | [] => True
  | .literal _ :: parts => Leads parts
  | .symbol id :: parts => outlook.look behind parts ⊆ outlook.follow id ∧ Leads parts

/-- Where two rows differ for the first time they are seen to be apart. -/
def Parts : List Part → List Part → Prop
  | [], [] => True
  | [], part :: parts => AllApart behind (outlook.look behind (part :: parts))
  | part :: parts, [] => AllApart (outlook.look behind (part :: parts)) behind
  | part :: parts, other :: others =>
    if part = other then Parts parts others
    else AllApart (outlook.look behind (part :: parts)) (outlook.look behind (other :: others))

/-- The outlook is right about the symbol of a number with the given production, and sees what it
is expanded into. -/
def Steers (id : Nat) : Production → Prop
  | .alternatives rows => ∀ row ∈ rows, outlook.Leads (outlook.follow id) row ∧
      outlook.look (outlook.follow id) row ⊆ outlook.first id ∧
        ∀ other ∈ rows, outlook.Parts (outlook.follow id) row other
  | .repetition element =>
      outlook.first element ++ outlook.follow id ⊆ outlook.follow element ∧
        outlook.first element ++ outlook.follow id ⊆ outlook.first id ∧
          AllApart (outlook.first element) (outlook.follow id)

/-- The outlook is right about all symbols of a grammar, and each of them may stand alone. -/
def Guides (grammar : Grammar) : Prop :=
  ∀ entry ∈ grammar.productions.zipIdx, outlook.Steers entry.2 entry.1 ∧
    .nothing ∈ outlook.follow entry.2

section Decisions

/-- Decide whether what stands behind the symbols of a row may follow them. -/
def decLeads : (row : List Part) → Decidable (outlook.Leads behind row)
  | [] => inferInstanceAs (Decidable True)
  | .literal _ :: parts => decLeads parts
  | .symbol _ :: parts =>
    have : Decidable (outlook.Leads behind parts) := decLeads parts
    inferInstanceAs (Decidable (_ ∧ _))

/-- Decide whether two rows part. -/
def decParts : (row other : List Part) → Decidable (outlook.Parts behind row other)
  | [], [] => inferInstanceAs (Decidable True)
  | [], _ :: _ | _ :: _, [] => inferInstanceAs (Decidable (AllApart _ _))
  | part :: parts, other :: others =>
    have : Decidable (outlook.Parts behind parts others) := decParts parts others
    inferInstanceAs (Decidable (if part = other then _ else _))

instance (row : List Part) : Decidable (outlook.Leads behind row) := decLeads outlook behind row

instance (row other : List Part) : Decidable (outlook.Parts behind row other) :=
  decParts outlook behind row other

instance (id : Nat) : (production : Production) → Decidable (outlook.Steers id production)
  | .alternatives rows => inferInstanceAs (Decidable (∀ row ∈ rows, _ ∧ _ ∧ ∀ other ∈ rows,
      outlook.Parts (outlook.follow id) row other))
  | .repetition element => inferInstanceAs (Decidable (
      outlook.first element ++ outlook.follow id ⊆ outlook.follow element ∧
        outlook.first element ++ outlook.follow id ⊆ outlook.first id ∧ AllApart _ _))

instance (grammar : Grammar) : Decidable (outlook.Guides grammar) :=
  inferInstanceAs (Decidable (∀ entry ∈ grammar.productions.zipIdx, _ ∧ _ ∈ _))

end Decisions

variable {outlook : Outlook} {behind : List Glimpse} {grammar : Grammar}

/-- What an outlook says of a production that is in the table. -/
theorem Guides.steers (guides : outlook.Guides grammar) {id : Nat} {production : Production}
    (produced : grammar.productions[id]? = some production) :
    outlook.Steers id production ∧ .nothing ∈ outlook.follow id :=
  guides (production, id) (List.mk_mem_zipIdx_iff_getElem?.mpr produced)

/-! ## What is glimpsed -/

/-- Wherever a text may stand as the rendering of a symbol, it shows at its beginning what the
outlook tells. -/
def Foreseen (outlook : Outlook) (id : Nat) (text : Bytes) : Prop :=
  ∀ rest, Glimpse.Some (outlook.follow id) rest → Glimpse.Some (outlook.first id) (text ++ rest)

/-- A row shows at its beginning what is told of it. The induction goes from the end of the row to
its beginning, as each symbol has to see what follows it. -/
theorem look_row {row : List Part} {pieces : List Bytes}
    (renders : List.Forall₂ (Part.Renders outlook.Foreseen) row pieces)
    (leads : outlook.Leads behind row) {rest : Bytes} (ahead : Glimpse.Some behind rest) :
    Glimpse.Some (outlook.look behind row) (pieces.flatten ++ rest) := by
  induction renders with
  | nil => exact ahead
  | @cons part piece parts pieces stands _ inductionHypothesis =>
    rw [List.flatten_cons, List.append_assoc]
    cases part with
    | literal octets =>
      obtain rfl : piece = octets := stands
      exact ⟨.front piece, List.mem_singleton_self _, List.prefix_append _ _⟩
    | symbol id =>
      obtain ⟨follows, others⟩ := leads
      exact stands _ ((inductionHypothesis others).mono follows)

/-- A run shows at its beginning an element or what is behind the run, the latter if it has no
elements. -/
theorem look_run {element : Nat} {pieces : List Bytes}
    (foreseen : ∀ piece ∈ pieces, outlook.Foreseen element piece)
    (follows : outlook.first element ++ behind ⊆ outlook.follow element) {rest : Bytes}
    (ahead : Glimpse.Some behind rest) :
    Glimpse.Some (outlook.first element ++ behind) (pieces.flatten ++ rest) := by
  induction pieces with
  | nil => exact ahead.mono (List.subset_append_right _ _)
  | cons piece pieces inductionHypothesis =>
    obtain ⟨first, others⟩ := List.forall_mem_cons.mp foreseen
    rw [List.flatten_cons, List.append_assoc]
    have seen := first _ ((inductionHypothesis others).mono follows)
    exact seen.mono (List.subset_append_left _ _)

/-- What an outlook that guides through a grammar tells of a symbol is seen of its renderings. A
node shows what its row or run does, each of which the outlook has looked at. -/
theorem Guides.wording (guides : outlook.Guides grammar) : grammar.Wording outlook.Foreseen where
  row produced member renders _ ahead :=
    have ⟨leads, covered, _⟩ := (guides.steers produced).1 _ member
    (look_row renders leads ahead).mono covered
  run produced each _ ahead :=
    have ⟨follows, covered, _⟩ := (guides.steers produced).1
    (look_run each follows ahead).mono covered

/-! ## What is determined -/

/-- The tree can be told from the beginning of a text, and what stands behind it there: no other
conforming tree with its symbol at the root may stand at the beginning of the same text. -/
def Tells (outlook : Outlook) (grammar : Grammar) (tree : Tree) : Prop :=
  ∀ (symbol : Symbol) (other : Tree) (rest otherRest : Bytes),
    tree.symbol? = some symbol → other.symbol? = some symbol → other.Conforms grammar →
      Glimpse.Some (outlook.follow symbol.id) rest →
        Glimpse.Some (outlook.follow symbol.id) otherRest →
          tree.render ++ rest = other.render ++ otherRest → tree = other ∧ rest = otherRest

/-- What follows a symbol of a row is led to by the rest of the row, and by what is behind the row
where the rest may be empty. -/
theorem Leads.symbol {part : Part} {row : List Part} (leads : outlook.Leads behind (part :: row))
    {id : Nat} (symbol : part = .symbol id) : outlook.look behind row ⊆ outlook.follow id := by
  subst symbol
  exact leads.1

/-- A row leads on behind its first part, so that an induction on rows can go on. -/
theorem Leads.tail {part : Part} {row : List Part} (leads : outlook.Leads behind (part :: row)) :
    outlook.Leads behind row := by
  cases part with
  | literal octets => exact leads
  | symbol id => exact leads.2

section Children

variable {rest otherRest : Bytes} {children others : List Tree}

/-- What fits a part can be told from anything else that does. A literal needs no outlook, as its
octets are given; a child of a symbol is told by the outlook for what follows it. -/
theorem tells_part {part : Part} {child other : Tree}
    (fits : grammar.Fits Grammar.Rooted part child)
    (otherFits : grammar.Fits Grammar.Rooted part other) (conforms : other.Conforms grammar)
    (tells : outlook.Tells grammar child)
    (ahead : ∀ id, part = .symbol id → Glimpse.Some (outlook.follow id) rest)
    (otherAhead : ∀ id, part = .symbol id → Glimpse.Some (outlook.follow id) otherRest)
    (wellFormed : grammar.WellFormed) (same : child.render ++ rest = other.render ++ otherRest) :
    child = other ∧ rest = otherRest := by
  cases part with
  | literal octets =>
    obtain rfl : child = .text octets := fits
    obtain rfl : other = .text octets := otherFits
    exact ⟨rfl, List.append_cancel_left same⟩
  | symbol id =>
    obtain ⟨symbol, found, rooted⟩ := fits
    obtain ⟨label, placed, otherRooted⟩ := otherFits
    obtain rfl : symbol = label := Option.some.inj (found.symm.trans placed)
    obtain rfl := wellFormed.id_of_getElem? found
    exact tells symbol other rest otherRest rooted otherRooted conforms (ahead _ rfl)
      (otherAhead _ rfl) same

/-- Children that fit a row show at their beginning what is told of it, since each of them renders
as the outlook foresees of its symbol. -/
theorem look_children (wording : grammar.Wording outlook.Foreseen)
    (wellFormed : grammar.WellFormed) {row : List Part}
    (fits : List.Forall₂ (grammar.Fits Grammar.Rooted) row children)
    (conform : ∀ child ∈ children, child.Conforms grammar) (leads : outlook.Leads behind row)
    (ahead : Glimpse.Some behind rest) :
    Glimpse.Some (outlook.look behind row) (Tree.renderAll children ++ rest) := by
  rw [Tree.renderAll_eq_flatten]
  exact look_row (wording.renders wellFormed fits conform) leads ahead

/-- Children that can be told one by one can be told together, if the rows that they fit part. The
induction is on the row. The rows stay the same as long as the texts do, for where they differ they
are seen to be apart. -/
theorem tells_row (wording : grammar.Wording outlook.Foreseen) (wellFormed : grammar.WellFormed)
    {row other : List Part} (fits : List.Forall₂ (grammar.Fits Grammar.Rooted) row children)
    (otherFits : List.Forall₂ (grammar.Fits Grammar.Rooted) other others)
    (conform : ∀ child ∈ children, child.Conforms grammar)
    (othersConform : ∀ child ∈ others, child.Conforms grammar)
    (tells : ∀ child ∈ children, outlook.Tells grammar child)
    (leads : outlook.Leads behind row) (otherLeads : outlook.Leads behind other)
    (parts : outlook.Parts behind row other) (ahead : Glimpse.Some behind rest)
    (otherAhead : Glimpse.Some behind otherRest)
    (same : Tree.renderAll children ++ rest = Tree.renderAll others ++ otherRest) :
    children = others ∧ rest = otherRest := by
  have seen := look_children wording wellFormed fits conform leads ahead
  have otherSeen := look_children wording wellFormed otherFits othersConform otherLeads otherAhead
  rw [← same] at otherSeen
  induction fits generalizing other others with
  | nil =>
    cases otherFits with
    | nil => exact ⟨rfl, same⟩
    | cons => exact (parts.different seen otherSeen).elim
  | @cons part child row children first fits inductionHypothesis =>
    cases otherFits with
    | nil => exact (parts.different seen otherSeen).elim
    | @cons otherPart otherChild other others otherFirst otherFits =>
      by_cases samePart : part = otherPart
      · subst samePart
        have restConform := (List.forall_mem_cons.mp conform).2
        obtain ⟨otherConforms, otherRestConform⟩ := List.forall_mem_cons.mp othersConform
        obtain ⟨tellsFirst, tellsRest⟩ := List.forall_mem_cons.mp tells
        have further := look_children wording wellFormed fits restConform leads.tail ahead
        have otherFurther :=
          look_children wording wellFormed otherFits otherRestConform otherLeads.tail otherAhead
        simp only [Tree.renderAll, List.append_assoc] at same
        obtain ⟨rfl, sameRest⟩ := tells_part first otherFirst otherConforms tellsFirst
          (fun id symbol => further.mono (leads.symbol symbol))
          (fun id symbol => otherFurther.mono (otherLeads.symbol symbol)) wellFormed same
        simp only [Parts, if_true] at parts
        obtain ⟨rfl, sameBehind⟩ := inductionHypothesis otherFits restConform otherRestConform
          tellsRest leads.tail otherLeads.tail parts sameRest further (sameRest ▸ otherFurther)
        exact ⟨rfl, sameBehind⟩
      · simp only [Parts, if_neg samePart] at parts
        exact (parts.different seen otherSeen).elim

/-- Elements of a run that can be told one by one can be told together, if another element is seen
to be apart from what is behind the run. The induction is on the elements. -/
theorem tells_run {element : Symbol}
    (foreseen : ∀ child : Tree, child.Conforms grammar → child.symbol? = some element →
      outlook.Foreseen element.id child.render)
    (each : ∀ child ∈ children, child.symbol? = some element ∧ child.Conforms grammar)
    (othersEach : ∀ child ∈ others, child.symbol? = some element ∧ child.Conforms grammar)
    (tells : ∀ child ∈ children, outlook.Tells grammar child)
    (follows : outlook.first element.id ++ behind ⊆ outlook.follow element.id)
    (apart : AllApart (outlook.first element.id) behind) (ahead : Glimpse.Some behind rest)
    (otherAhead : Glimpse.Some behind otherRest)
    (same : Tree.renderAll children ++ rest = Tree.renderAll others ++ otherRest) :
    children = others ∧ rest = otherRest := by
  -- What stands in front of an element of either run may follow an element.
  have further {children : List Tree} {rest : Bytes} (ahead : Glimpse.Some behind rest)
      (each : ∀ child ∈ children, child.symbol? = some element ∧ child.Conforms grammar) :
      Glimpse.Some (outlook.follow element.id) (Tree.renderAll children ++ rest) := by
    rw [Tree.renderAll_eq_flatten]
    refine (look_run (List.forall_mem_map.mpr fun child member => ?_) follows ahead).mono follows
    exact foreseen child (each child member).2 (each child member).1
  induction children generalizing others with
  | nil =>
    cases others with
    | nil => exact ⟨rfl, same⟩
    | cons other others =>
      obtain ⟨⟨rooted, conforms⟩, othersEach⟩ := List.forall_mem_cons.mp othersEach
      have seen := foreseen other conforms rooted _ (further otherAhead othersEach)
      rw [← List.append_assoc, ← Tree.renderAll, ← same] at seen
      exact (apart.different seen ahead).elim
  | cons child children inductionHypothesis =>
    obtain ⟨⟨rooted, conforms⟩, restEach⟩ := List.forall_mem_cons.mp each
    obtain ⟨tellsFirst, tellsRest⟩ := List.forall_mem_cons.mp tells
    cases others with
    | nil =>
      have seen := foreseen child conforms rooted _ (further ahead restEach)
      rw [← List.append_assoc, ← Tree.renderAll, same] at seen
      exact (apart.different seen otherAhead).elim
    | cons other others =>
      obtain ⟨⟨otherRooted, otherConforms⟩, otherRestEach⟩ := List.forall_mem_cons.mp othersEach
      simp only [Tree.renderAll, List.append_assoc] at same
      obtain ⟨rfl, sameRest⟩ := tellsFirst element other _ _ rooted otherRooted otherConforms
        (further ahead restEach) (further otherAhead otherRestEach) same
      obtain ⟨rfl, sameBehind⟩ := inductionHypothesis restEach otherRestEach tellsRest sameRest
      exact ⟨rfl, sameBehind⟩

end Children

/-- With an outlook that guides through the grammar every conforming tree can be told. The induction
is over the tree: the children of a node are told as a row or as a run. -/
theorem Guides.tells (guides : outlook.Guides grammar) (wellFormed : grammar.WellFormed)
    {tree : Tree} (conforms : tree.Conforms grammar) : outlook.Tells grammar tree := by
  induction tree with
  | text octets => exact fun symbol other rest otherRest rooted => nomatch rooted
  | expansion label children inductionHypothesis =>
    intro symbol other rest otherRest rooted otherRooted otherConforms ahead otherAhead same
    obtain rfl := Option.some.inj rooted
    obtain ⟨permits, below⟩ := Tree.everywhere_expansion.mp conforms
    obtain ⟨others, rfl, otherPermits, othersBelow⟩ := otherConforms.expansion otherRooted
    have tells : ∀ child ∈ children, outlook.Tells grammar child := fun child member =>
      inductionHypothesis child member (below child member)
    suffices told : children = others ∧ rest = otherRest by
      obtain ⟨rfl, rests⟩ := told
      exact ⟨rfl, rests⟩
    obtain ⟨production, produced⟩ := permits.produced
    have steers := (guides.steers produced).1
    cases production with
    | alternatives rows =>
      simp only [Grammar.Permits, produced] at permits otherPermits
      obtain ⟨-, row, member, fits⟩ := permits
      obtain ⟨-, otherRow, otherMember, otherFits⟩ := otherPermits
      obtain ⟨leads, -, parts⟩ := steers row member
      exact tells_row guides.wording wellFormed fits otherFits below othersBelow tells leads
        (steers otherRow otherMember).1 (parts otherRow otherMember) ahead otherAhead same
    | repetition id =>
      obtain ⟨follows, -, apart⟩ := steers
      have owned := permits.1
      obtain ⟨element, carried, -, rfl⟩ := wellFormed.repeats label id owned produced
      have run := Grammar.permits_iff_of_element? wellFormed owned produced carried
      exact tells_run (fun _ conforms rooted => guides.wording.render wellFormed conforms rooted)
        (fun child member => ⟨(run children).mp permits child member, below child member⟩)
        (fun child member => ⟨(run others).mp otherPermits child member, othersBelow child member⟩)
        tells follows apart ahead otherAhead same

end Outlook

namespace Grammar

/-- Conforming trees that have the same symbol at the root and are rendered alike are the same. -/
def Unambiguous (grammar : Grammar) : Prop :=
  ∀ tree other : Tree, tree.Conforms grammar → other.Conforms grammar →
    tree.symbol? = other.symbol? → tree.render = other.render → tree = other

/-- A grammar that an outlook guides through is not ambiguous. The outlook can be checked by
evaluation, which leaves no search for an ambiguity to be done. -/
theorem unambiguous_of_guides {grammar : Grammar} (wellFormed : grammar.WellFormed)
    {outlook : Outlook} (guides : outlook.Guides grammar) : grammar.Unambiguous := by
  intro tree other conforms otherConforms sameSymbol same
  cases tree with
  | text octets =>
    cases other with
    | text others => exact congrArg Tree.text same
    | expansion symbol children => cases sameSymbol
  | expansion symbol children =>
    obtain ⟨production, produced⟩ := (Tree.everywhere_expansion.mp conforms).1.produced
    have alone : Glimpse.Some (outlook.follow symbol.id) [] :=
      ⟨.nothing, (guides.steers produced).2, rfl⟩
    exact (guides.tells wellFormed conforms symbol other [] [] rfl sameSymbol.symm otherConforms
      alone alone (congrArg (· ++ []) same)).1

end Grammar

end Graft
