import Graft.Proofs.Grammar.Derivation
import Graft.Proofs.Nesting
import Graft.Proofs.Tree.Rendering

/-!
# What is rendered

A law about the renderings of symbols holds of every conforming tree if it passes
from the parts of a row to the row and from the elements of a run to the run. Two
such laws can be read off the literals of a grammar: its renderings are nested if
the literals of each row are, and octets that no literal of some symbols has do not
occur where only these symbols are expanded.
-/

namespace Graft

/-- A part is rendered as its literal, or as the law has it for its symbol. -/
def Part.Renders (law : Nat → Bytes → Prop) : Part → Bytes → Prop
  | .literal octets, piece => piece = octets
  | .symbol id, piece => law id piece

/-- The octets that a part contributes itself. -/
def Part.spelling : Part → Bytes
  | .literal octets => octets
  | .symbol _ => []

/-- A part is one of the given symbols, or a literal without the given octets. -/
def Part.Lacks (ids : List Nat) (octets : List UInt8) : Part → Prop
  | .literal spelling => ∀ octet ∈ octets, octet ∉ spelling
  | .symbol id => id ∈ ids

instance (ids : List Nat) (octets : List UInt8) : (part : Part) → Decidable (part.Lacks ids octets)
  -- The given octets are gone through, and not all octets that there are.
  | .literal spelling => List.decidableBAll (· ∉ spelling) octets
  | .symbol id => inferInstanceAs (Decidable (id ∈ ids))

/-- The rows that a symbol chooses from. -/
def Production.rows : Production → List (List Part)
  | .alternatives rows => rows
  | .repetition _ => []

/-- The parts that may stand below a symbol. -/
def Production.parts : Production → List Part
  | .alternatives rows => rows.flatten
  | .repetition element => [.symbol element]

namespace Grammar

variable {grammar : Grammar} {law : Nat → Bytes → Prop}

/-- The law passes from the parts of a row to the row, and from the elements of a run to the run. -/
structure Wording (grammar : Grammar) (law : Nat → Bytes → Prop) : Prop where
  row : ∀ {id : Nat} {rows : List (List Part)} {row : List Part} {pieces : List Bytes},
    grammar.productions[id]? = some (.alternatives rows) → row ∈ rows →
      List.Forall₂ (Part.Renders law) row pieces → law id pieces.flatten
  run : ∀ {id element : Nat} {pieces : List Bytes},
    grammar.productions[id]? = some (.repetition element) →
      (∀ piece ∈ pieces, law element piece) → law id pieces.flatten

/-- What fits a part is rendered as the part is, if the law holds of the symbol at its root. A
literal is rendered to itself, whatever the law is. -/
theorem Fits.renders (wellFormed : grammar.WellFormed) {part : Part} {tree : Tree}
    (fits : grammar.Fits Rooted part tree)
    (holds : ∀ symbol, tree.symbol? = some symbol → law symbol.id tree.render) :
    part.Renders law tree.render := by
  cases part with
  | literal octets =>
    obtain rfl : tree = .text octets := fits
    rfl
  | symbol id =>
    obtain ⟨symbol, found, rooted⟩ := fits
    rw [← wellFormed.id_of_getElem? found]
    exact holds symbol rooted

/-- Such a law holds of the rendering of every conforming tree. The induction is over the tree:
a node renders to what its children render to, one behind the other. -/
theorem Wording.render (wording : grammar.Wording law) (wellFormed : grammar.WellFormed)
    {tree : Tree} (conforms : tree.Conforms grammar) {symbol : Symbol}
    (rooted : tree.symbol? = some symbol) : law symbol.id tree.render := by
  induction tree generalizing symbol with
  | text octets => cases rooted
  | expansion label children inductionHypothesis =>
    obtain rfl := Option.some.inj rooted
    obtain ⟨⟨-, permitted⟩, below⟩ := Tree.everywhere_expansion.mp conforms
    have rendered : ∀ part, ∀ child ∈ children, grammar.Fits Rooted part child →
        part.Renders law child.render := fun part child member fits =>
      fits.renders wellFormed fun symbol => inductionHypothesis child member (below child member)
    rw [Tree.render, Tree.renderAll_eq_flatten]
    split at permitted
    · exact permitted.elim
    · next rows produced =>
      obtain ⟨row, member, fits⟩ := permitted
      exact wording.row produced member
        (List.forall₂_map_right_iff.mpr (forall₂_imp_of_mem fits rendered))
    · next element produced =>
      refine wording.run produced (List.forall_mem_map.mpr fun child member => ?_)
      exact rendered (.symbol element) child member (permitted child member)

/-- The children that fit a row are rendered as its parts are. This is what the law says of a node
with alternatives, read off its children. -/
theorem Wording.renders (wording : grammar.Wording law) (wellFormed : grammar.WellFormed)
    {row : List Part} {children : List Tree}
    (fits : List.Forall₂ (grammar.Fits Rooted) row children)
    (conform : ∀ child ∈ children, child.Conforms grammar) :
    List.Forall₂ (Part.Renders law) row (children.map Tree.render) :=
  List.forall₂_map_right_iff.mpr <| forall₂_imp_of_mem fits fun _ child member fitted =>
    fitted.renders wellFormed fun _ => wording.render wellFormed (conform child member)

/-! ## Nested brackets -/

/-- Pieces that stand for the parts of a row are nested one behind the other if the literals of the
row are. The induction is on the row, with the literals before it. -/
theorem nested_row (before : Bytes) {row : List Part} {pieces : List Bytes}
    (renders : List.Forall₂ (Part.Renders fun _ => Bytes.Nested) row pieces)
    (spelling : Bytes.Nested (before ++ row.flatMap Part.spelling)) :
    Bytes.Nested (before ++ pieces.flatten) := by
  induction renders generalizing before with
  | nil => exact spelling
  | @cons part piece parts pieces stands _ inductionHypothesis =>
    rw [List.flatMap_cons] at spelling
    rw [List.flatten_cons]
    cases part with
    | literal octets =>
      obtain rfl : piece = octets := stands
      rw [← List.append_assoc] at spelling ⊢
      exact inductionHypothesis _ spelling
    | symbol id => exact (inductionHypothesis before spelling).insert stands

/-- Brackets are nested in whatever a grammar renders to if they are in the literals of each of its
rows. Only the rows have to be looked at, although the trees are without number. -/
theorem wording_nested
    (nested : ∀ production ∈ grammar.productions, ∀ row ∈ production.rows,
      Bytes.Nested (row.flatMap Part.spelling)) :
    grammar.Wording fun _ => Bytes.Nested where
  row produced member renders :=
    nested_row [] renders (nested _ (List.mem_of_getElem? produced) _ member)
  run _ each := Bytes.Nested.flatten each

/-! ## Octets that do not occur -/

/-- What may stand below the given symbols are they themselves and literals without the given
octets. -/
def Lacks (grammar : Grammar) (ids : List Nat) (octets : List UInt8) : Prop :=
  ∀ id ∈ ids, ∀ production ∈ grammar.productions[id]?, ∀ part ∈ production.parts,
    part.Lacks ids octets

instance (ids : List Nat) (octets : List UInt8) : Decidable (grammar.Lacks ids octets) :=
  inferInstanceAs (Decidable (∀ id ∈ ids, ∀ production ∈ grammar.productions[id]?,
    ∀ part ∈ production.parts, part.Lacks ids octets))

/-- A symbol that is one of the given ones is rendered without the given octets. -/
def Without (ids : List Nat) (octets : List UInt8) (id : Nat) (text : Bytes) : Prop :=
  id ∈ ids → ∀ octet ∈ octets, octet ∉ text

variable {ids : List Nat} {octets : List UInt8}

/-- What stands for a part without the octets does not have them, be it the literal itself or what
one of the listed symbols is rendered to. -/
theorem not_mem_of_renders {part : Part} {piece : Bytes}
    (renders : part.Renders (Without ids octets) piece) (lacks : part.Lacks ids octets) :
    ∀ octet ∈ octets, octet ∉ piece := by
  cases part with
  | literal spelling =>
    obtain rfl : piece = spelling := renders
    exact lacks
  | symbol id => exact renders lacks

/-- Octets that no literal below some symbols has are not in what these are rendered to. The listed
symbols have to be closed under what their rows refer to, so that none is reached that is not looked
at. -/
theorem Lacks.wording (lacks : grammar.Lacks ids octets) :
    grammar.Wording (Without ids octets) where
  row := by
    intro id rows row pieces produced member renders listed octet forbidden present
    obtain ⟨piece, among, present⟩ := List.mem_flatten.mp present
    obtain ⟨part, standing, renders⟩ := related_of_mem renders among
    have allowed := lacks id listed _ produced part (List.mem_flatten_of_mem member standing)
    exact not_mem_of_renders renders allowed octet forbidden present
  run := by
    intro id element pieces produced each listed octet forbidden present
    obtain ⟨piece, among, present⟩ := List.mem_flatten.mp present
    have allowed := lacks id listed _ produced (.symbol element) List.mem_cons_self
    exact each piece among allowed octet forbidden present

/-- A row that lacks the octets up to the ending of its last literal is rendered without them up to
that ending. -/
theorem exists_body {parts : List Part} {spelling ending : Bytes} {pieces : List Bytes}
    (renders : List.Forall₂ (Part.Renders (Without ids octets))
      (parts ++ [.literal (spelling ++ ending)]) pieces)
    (lacks : ∀ part ∈ parts, part.Lacks ids octets) (plain : ∀ octet ∈ octets, octet ∉ spelling) :
    ∃ body, pieces.flatten = body ++ ending ∧ ∀ octet ∈ octets, octet ∉ body := by
  induction parts generalizing pieces with
  | nil =>
    obtain _ | ⟨whole, _ | _⟩ := renders
    obtain rfl := whole
    exact ⟨spelling, List.append_nil _, plain⟩
  | cons part parts inductionHypothesis =>
    obtain _ | @⟨_, piece, _, pieces, first, others⟩ := renders
    obtain ⟨lacking, rest⟩ := List.forall_mem_cons.mp lacks
    obtain ⟨body, parts, without⟩ := inductionHypothesis others rest
    refine ⟨piece ++ body, ?_, fun octet forbidden present => ?_⟩
    · rw [List.flatten_cons, parts, List.append_assoc]
    · rcases List.mem_append.mp present with inPiece | inBody
      · exact not_mem_of_renders first lacking octet forbidden inPiece
      · exact without octet forbidden inBody

end Grammar

end Graft
