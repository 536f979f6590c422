import Graft.Proofs.Grammar.Wording

/-!
# Lengths that wrap around

A length is written in 64 bits whatever it is. A child list that is longer is
written as a shorter one, and its last children are left to be read as something
else. No sample is read as another tree because of that: where the reading comes to
its end, some of them are still to come. If the names and literals of a grammar are
short, every conforming tree is therefore read as itself or not at all.
-/

namespace Graft

/-- What is read of a number that may not fit its width is no greater than the number, being its
remainder by the count of the width. -/
theorem Bytes.number_littleEndian_le (width value : Nat) :
    number (littleEndian width value) ≤ value := by
  induction width generalizing value with
  | zero => exact Nat.zero_le value
  | succ width inductionHypothesis =>
    have quotient := inductionHypothesis (value / 256)
    simp only [littleEndian, number, UInt8.toNat_ofNat']
    omega

namespace Wire

mutual

/-- Every name and leaf has a length that an allocation can hold. A child list may have any
length. -/
def Spelled : Wire → Prop
  | .text octets => octets.length ≤ Sample.allocationLimit
  | .expansion name children =>
    (Bytes.ofString name).length ≤ Sample.allocationLimit ∧ SpelledAll children

/-- The same of every tree in a row. -/
def SpelledAll : List Wire → Prop
  | [] => True
  | wire :: rest => Spelled wire ∧ SpelledAll rest

end

/-- Names and leaves are short in a row if they are in each of its trees. How many trees there are
does not matter. -/
theorem spelledAll_iff {wires : List Wire} : SpelledAll wires ↔ ∀ wire ∈ wires, wire.Spelled := by
  induction wires with
  | nil => simp [SpelledAll]
  | cons wire rest inductionHypothesis => simp [SpelledAll, inductionHypothesis]

/-- An allocation can hold a row if it can hold each of its trees. The list of the trees itself
counts with the node above them. -/
theorem storableAll_iff {wires : List Wire} :
    StorableAll wires ↔ ∀ wire ∈ wires, wire.Storable := by
  induction wires with
  | nil => simp [StorableAll]
  | cons wire rest inductionHypothesis => simp [StorableAll, inductionHypothesis]

/-- Rows one behind the other are written so, for a row has no mark of where it begins or ends. -/
theorem writeAll_append (first second : List Wire) :
    writeAll (first ++ second) = writeAll first ++ writeAll second := by
  induction first with
  | nil => rfl
  | cons wire rest inductionHypothesis =>
    rw [List.cons_append, writeAll, inductionHypothesis, writeAll, List.append_assoc]

/-- Of two fields that an allocation can hold the octets tell where they end. The lengths in front
of them have not wrapped around and must agree. -/
theorem field_inj {field other rest further : Bytes}
    (held : field.length ≤ Sample.allocationLimit)
    (otherHeld : other.length ≤ Sample.allocationLimit)
    (same : Bytes.littleEndian 8 field.length ++ (field ++ rest) =
      Bytes.littleEndian 8 other.length ++ (other ++ further)) :
    field = other ∧ rest = further := by
  obtain ⟨counted, same⟩ := List.append_inj same (by simp only [Bytes.length_littleEndian])
  have lengths := congrArg Bytes.number counted
  rw [Bytes.number_littleEndian _ _ (Sample.fits_of_allocatable held),
    Bytes.number_littleEndian _ _ (Sample.fits_of_allocatable otherHeld)] at lengths
  exact List.append_inj same lengths

/-- The nodes at the beginning of what is written alike agree in all but their child lists. Of these
the second one is no shorter: if it is longer, its length has wrapped around. -/
theorem head_cases {wire other : Wire} {left right : Bytes} (storable : wire.Storable)
    (spelled : other.Spelled) (same : wire.write ++ left = other.write ++ right) :
    (∃ octets, wire = .text octets ∧ other = .text octets ∧ left = right) ∨
      ∃ name children others, wire = .expansion name children ∧ other = .expansion name others ∧
        children.length ≤ others.length ∧
          writeAll children ++ left = writeAll others ++ right := by
  cases wire with
  | text octets =>
    cases other with
    | text field =>
      simp only [write, List.append_assoc] at same
      obtain ⟨fields, rests⟩ := field_inj storable spelled (List.append_cancel_left same)
      exact .inl ⟨octets, rfl, fields ▸ rfl, rests⟩
    | expansion name children =>
      simp only [write, List.append_assoc] at same
      cases List.append_inj_left same rfl
  | expansion name children =>
    cases other with
    | text octets =>
      simp only [write, List.append_assoc] at same
      cases List.append_inj_left same rfl
    | expansion label others =>
      obtain ⟨nameHeld, entriesHeld, -⟩ := storable
      simp only [write, List.append_assoc] at same
      obtain ⟨names, rows⟩ := field_inj nameHeld spelled.1 (List.append_cancel_left same)
      obtain ⟨counted, rows⟩ := List.append_inj rows (by simp only [Bytes.length_littleEndian])
      have named := congrArg Text.Utf8.decode names
      rw [Text.Utf8.decode_ofString, Text.Utf8.decode_ofString] at named
      obtain rfl := Except.ok.inj named
      refine .inr ⟨name, children, others, rfl, rfl, ?_, rows⟩
      have held : children.length ≤ Sample.allocationLimit := by
        simp only [Sample.entrySize] at entriesHeld
        omega
      calc children.length
        _ = Bytes.number (Bytes.littleEndian 8 children.length) :=
          (Bytes.number_littleEndian _ _ (Sample.fits_of_allocatable held)).symm
        _ = Bytes.number (Bytes.littleEndian 8 others.length) := congrArg _ counted
        _ ≤ others.length := Bytes.number_littleEndian_le 8 _

/-- What is read of a row that has been written in the place of another one, of no fewer trees, is
that row, or something is left of it. Of the row that is read an allocation can hold all child
lists; of the other one they may have wrapped around, and then children of it come where the row
that is read goes on. The induction is on the octets: below a node the children stand in front of
what is behind it. -/
theorem eq_of_writeAll {lefts rights : List Wire} {left right : Bytes}
    (storable : ∀ wire ∈ lefts, wire.Storable) (spelled : ∀ wire ∈ rights, wire.Spelled)
    (fewer : lefts.length ≤ rights.length)
    (same : writeAll lefts ++ left = writeAll rights ++ right) :
    lefts = rights ∧ left = right ∨ right.length < left.length := by
  induction written : (writeAll lefts).length using Nat.strongRecOn
    generalizing lefts rights with
  | ind length inductionHypothesis =>
  subst written
  obtain _ | ⟨wire, wires⟩ := lefts
  · cases rights with
    | nil => exact .inl ⟨rfl, same⟩
    | cons other others =>
      have lengths := congrArg List.length same
      have further := write_nonempty other
      simp only [writeAll, List.nil_append, List.length_append] at lengths
      omega
  obtain _ | ⟨other, others⟩ := rights
  · cases fewer
  obtain ⟨wireStorable, wiresStorable⟩ := List.forall_mem_cons.mp storable
  obtain ⟨otherSpelled, othersSpelled⟩ := List.forall_mem_cons.mp spelled
  replace fewer := Nat.le_of_succ_le_succ fewer
  simp only [writeAll, List.append_assoc] at same
  obtain ⟨octets, rfl, rfl, rests⟩ | ⟨name, children, grandchildren, rfl, rfl, count, rows⟩ :=
    head_cases wireStorable otherSpelled same
  · have shorter : (writeAll wires).length < (writeAll (.text octets :: wires)).length := by
      simp only [writeAll, write, List.length_append, Bytes.length_littleEndian]
      omega
    have together :=
      inductionHypothesis _ shorter wiresStorable othersSpelled fewer rests rfl
    exact together.imp_left (And.imp_left (congrArg (List.cons _)))
  · rw [← List.append_assoc, ← writeAll_append, ← List.append_assoc, ← writeAll_append] at rows
    have shorter : (writeAll (children ++ wires)).length <
        (writeAll (.expansion name children :: wires)).length := by
      simp only [writeAll_append, writeAll, write, List.length_append, Bytes.length_littleEndian]
      omega
    have together := inductionHypothesis _ shorter
      (List.forall_mem_append.mpr ⟨storableAll_iff.mp wireStorable.2.2, wiresStorable⟩)
      (List.forall_mem_append.mpr ⟨spelledAll_iff.mp otherSpelled.2, othersSpelled⟩)
      (by simp only [List.length_append]; omega) rows rfl
    refine together.imp_left fun ⟨sameRow, rests⟩ => ?_
    -- Neither part is longer on the left, so the two rows divide at the same place.
    have lengths := congrArg List.length sameRow
    simp only [List.length_append] at lengths
    obtain ⟨rfl, rfl⟩ := List.append_inj sameRow (by omega)
    exact ⟨rfl, rests⟩

/-- Where an allocation can hold the one of two trees, and the names and leaves of the other one,
they are written alike only if they are the same. A child list of the other one that has wrapped
around would leave octets over. -/
theorem eq_of_write {wire other : Wire} (storable : wire.Storable) (spelled : other.Spelled)
    (same : wire.write = other.write) : wire = other := by
  have rows : writeAll [wire] ++ [] = writeAll [other] ++ [] := by
    simpa only [writeAll, List.append_nil] using same
  obtain ⟨row, -⟩ | longer := eq_of_writeAll (List.forall_mem_singleton.mpr storable)
    (List.forall_mem_singleton.mpr spelled) (Nat.le_refl 1) rows
  · exact List.singleton_inj.mp row
  · exact (Nat.not_lt_zero _ longer).elim

end Wire

namespace Grammar

variable {grammar : Grammar}

/-- An allocation can hold each name and each literal of the grammar. -/
structure Spellable (grammar : Grammar) : Prop where
  names : ∀ symbol ∈ grammar.symbols,
    (Bytes.ofString symbol.name).length ≤ Sample.allocationLimit
  literals : ∀ production ∈ grammar.productions, ∀ part ∈ production.parts,
    part.spelling.length ≤ Sample.allocationLimit

/-- A permitted child fits one of the parts that may stand there, so that whatever holds of all
parts of a grammar can be said of it. -/
theorem Permits.fits {symbol : Symbol} {children : List Tree}
    (permits : grammar.Permits symbol children) {child : Tree} (member : child ∈ children) :
    ∃ production ∈ grammar.productions, ∃ part ∈ production.parts,
      grammar.Fits Rooted part child := by
  obtain ⟨-, permitted⟩ := permits
  split at permitted
  · exact permitted.elim
  · next rows produced =>
    obtain ⟨row, among, fits⟩ := permitted
    obtain ⟨part, standing, fitted⟩ := related_of_mem fits member
    exact ⟨_, List.mem_of_getElem? produced, part, List.mem_flatten_of_mem among standing, fitted⟩
  · next element produced =>
    exact ⟨_, List.mem_of_getElem? produced, _, List.mem_cons_self, permitted child member⟩

end Grammar

namespace Tree

variable {grammar : Grammar}

/-- A row is written tree by tree. Laws of mapped lists apply to written rows by this. -/
theorem toWires_eq_map (trees : List Tree) : toWires trees = trees.map toWire := by
  induction trees with
  | nil => rfl
  | cons tree rest inductionHypothesis => rw [toWires, inductionHypothesis, List.map_cons]

/-- A conforming tree is spelled with the names and literals of the grammar. The induction is over
the tree, in which every node takes its name and its leaves from a production. -/
theorem Conforms.spelled (spellable : grammar.Spellable) {tree : Tree}
    (conforms : tree.Conforms grammar) (inner : tree.symbol? ≠ none) : tree.toWire.Spelled := by
  induction tree with
  | text octets => exact absurd rfl inner
  | expansion symbol children inductionHypothesis =>
    obtain ⟨permits, below⟩ := everywhere_expansion.mp conforms
    refine ⟨spellable.names symbol (List.mem_of_getElem? permits.1), Wire.spelledAll_iff.mpr ?_⟩
    rw [toWires_eq_map]
    refine List.forall_mem_map.mpr fun child member => ?_
    obtain ⟨production, listed, part, standing, fits⟩ := permits.fits member
    cases part with
    | literal octets =>
      obtain rfl : child = .text octets := fits
      exact spellable.literals production listed _ standing
    | symbol id =>
      obtain ⟨label, -, rooted⟩ := fits
      exact inductionHypothesis child member (below child member) (rooted ▸ Option.some_ne_none _)

/-- A conforming tree is read from its sample, if anything is, however large it is. Its names and
literals are short as the grammar's are, and its child lists may be as long as they like. -/
theorem Conforms.eq_of_read (wellFormed : grammar.WellFormed) (spellable : grammar.Spellable)
    {tree read : Tree} (conforms : tree.Conforms grammar) (inner : tree.symbol? ≠ none)
    (reads : grammar.readSample tree.toSample = .ok read) : read = tree := by
  obtain ⟨sample, -, storable⟩ := (Grammar.readSample_eq_ok_iff wellFormed).mp reads
  have same : read.toWire = tree.toWire :=
    Wire.eq_of_write storable (conforms.spelled spellable inner) sample
  have held : tree.Storable := by
    rw [Storable, ← same]
    exact storable
  exact Except.ok.inj (reads.symm.trans (conforms.readSample wellFormed held))

end Tree

end Graft
