import Graft.Sample.Reading

/-!
# The layout of written trees

Every reader of a sample accepts exactly what the writer of the same field puts
in front of the octets that are left: a number at its width, octets after their
count, a node up to its children, and a whole node. Each law is an equivalence.
Read from right to left it says that what is written is read back, whatever
follows it; read from left to right it says that nothing else is accepted, so no
field has a second spelling.

Lengths up to what an allocation can hold are the only ones that are read. They
fit their 64 bits, which is why no law has to speak of lengths that wrap around.
-/

namespace Graft

namespace Wire

mutual

/-- Every name, leaf and child list has a length that an allocation can hold. -/
def Storable : Wire → Prop
  | .text octets => octets.length ≤ Sample.allocationLimit
  | .expansion name children =>
    (Bytes.ofString name).length ≤ Sample.allocationLimit ∧
      Sample.entrySize * children.length ≤ Sample.allocationLimit ∧ StorableAll children

/-- Every tree in a row has lengths that an allocation can hold. -/
def StorableAll : List Wire → Prop
  | [] => True
  | wire :: rest => Storable wire ∧ StorableAll rest

end

mutual

/-- Decide whether a written tree has lengths that an allocation can hold. -/
def decStorable : (wire : Wire) → Decidable wire.Storable
  | .text octets => inferInstanceAs (Decidable (octets.length ≤ Sample.allocationLimit))
  | .expansion name children =>
    have : Decidable (StorableAll children) := decStorableAll children
    inferInstanceAs (Decidable ((Bytes.ofString name).length ≤ Sample.allocationLimit ∧
      Sample.entrySize * children.length ≤ Sample.allocationLimit ∧ StorableAll children))

/-- Decide the same of every tree in a row. -/
def decStorableAll : (wires : List Wire) → Decidable (StorableAll wires)
  | [] => inferInstanceAs (Decidable True)
  | wire :: rest =>
    have : Decidable wire.Storable := decStorable wire
    have : Decidable (StorableAll rest) := decStorableAll rest
    inferInstanceAs (Decidable (wire.Storable ∧ StorableAll rest))

end

instance (wire : Wire) : Decidable wire.Storable := decStorable wire

/-- A node is written in twelve octets at least: its variant and one length. -/
theorem twelve_le_length_write (wire : Wire) : 12 ≤ wire.write.length := by
  cases wire <;> simp [write] <;> omega

/-- A node is not written in nothing, so that a reader that takes a node leaves a shorter rest and
the reading of a row comes to an end. -/
theorem write_nonempty (wire : Wire) : 0 < wire.write.length :=
  Nat.lt_of_lt_of_le (by decide) (twelve_le_length_write wire)

/-- A row is written in twelve octets a node at least. A sample can thus not hold more nodes than
its length allows, whatever lengths it declares. -/
theorem twelve_mul_le_length_writeAll (wires : List Wire) :
    12 * wires.length ≤ (writeAll wires).length := by
  induction wires with
  | nil => simp
  | cons wire rest inductionHypothesis =>
    have first := twelve_le_length_write wire
    rw [writeAll, List.length_append, List.length_cons]
    omega

mutual

/-- An allocation can hold whatever is written in a quarter of its octets: twelve octets of a
sample make one entry of 48. -/
theorem storable_of_short : (wire : Wire) → 4 * wire.write.length ≤ Sample.allocationLimit →
    wire.Storable
  | .text octets, short => by
    simp only [write, List.length_append, Bytes.length_littleEndian] at short
    simp only [Storable]
    omega
  | .expansion name children, short => by
    have entries := twelve_mul_le_length_writeAll children
    simp only [write, List.length_append, Bytes.length_littleEndian] at short
    refine ⟨by omega, ?_, storableAll_of_short children (by omega)⟩
    simp only [Sample.entrySize]
    omega

/-- The same of a row, each node of which is written in a part of the octets. -/
theorem storableAll_of_short : (wires : List Wire) →
    4 * (writeAll wires).length ≤ Sample.allocationLimit → StorableAll wires
  | [], _ => trivial
  | wire :: rest, short => by
    rw [writeAll, List.length_append] at short
    exact ⟨storable_of_short wire (by omega), storableAll_of_short rest (by omega)⟩

end

end Wire

namespace Sample

/-- A length that an allocation can hold fits the 64 bits it is written in, with one bit to spare.
No length that is accepted has wrapped around. -/
theorem fits_of_allocatable {length : Nat} (allocatable : length ≤ allocationLimit) :
    length < Bytes.countOfWidth 8 :=
  Nat.lt_of_le_of_lt allocatable (by decide)

/-- A number is read from exactly its written form. Octets and numbers of one width correspond one
to one, so the form determines the number and the number the form. -/
theorem readNumber_eq_ok_iff {width : Nat} {positive : 0 < width} {octets : Bytes}
    {value : Nat} {rest : Shorter octets} :
    readNumber width positive octets = .ok (value, rest) ↔
      octets = Bytes.littleEndian width value ++ rest.val ∧ value < Bytes.countOfWidth width := by
  constructor
  · intro read
    simp only [readNumber] at read
    split at read
    · cases read
    · next enough =>
      have full : (octets.take width).length = width := by
        have := List.length_take_le width octets
        omega
      cases read
      have written := Bytes.littleEndian_number (octets.take width)
      have bound := Bytes.number_lt (octets.take width)
      rw [full] at written bound
      exact ⟨by rw [written, List.take_append_drop], bound⟩
  · rintro ⟨written, fits⟩
    obtain ⟨rest, shorter⟩ := rest
    dsimp only at written
    subst written
    have field : (Bytes.littleEndian width value ++ rest).take width =
        Bytes.littleEndian width value := by
      rw [List.take_left' (Bytes.length_littleEndian width value)]
    have left : (Bytes.littleEndian width value ++ rest).drop width = rest := by
      rw [List.drop_left' (Bytes.length_littleEndian width value)]
    simp only [readNumber, field, left, Bytes.length_littleEndian, Nat.lt_irrefl, ↓reduceDIte,
      Bytes.number_littleEndian width value fits]

/-- A field of known length is read from exactly its octets, and the rest is what stands behind
them. -/
theorem readField_eq_ok_iff {length : Nat} {octets field : Bytes} {rest : NotLonger octets} :
    readField length octets = .ok (field, rest) ↔
      octets = field ++ rest.val ∧ field.length = length := by
  constructor
  · intro read
    simp only [readField] at read
    split at read
    · cases read
    · next enough =>
      have full : (octets.take length).length = length := by
        have := List.length_take_le length octets
        omega
      cases read
      exact ⟨(List.take_append_drop length octets).symm, full⟩
  · rintro ⟨written, sized⟩
    obtain ⟨rest, notLonger⟩ := rest
    dsimp only at written
    subst written sized
    simp [readField]

/-- Octets that are preceded by their number are read from exactly that form. The number is tested
against what an allocation can hold before a single one of the octets is looked at. -/
theorem readOctets_eq_ok_iff {octets field : Bytes} {rest : Shorter octets} :
    readOctets octets = .ok (field, rest) ↔
      octets = Bytes.littleEndian 8 field.length ++ field ++ rest.val ∧
        field.length ≤ allocationLimit := by
  constructor
  · intro read
    simp only [readOctets] at read
    split at read
    · cases read
    · next length after counted =>
      obtain ⟨countWritten, -⟩ := readNumber_eq_ok_iff.mp counted
      split at read
      · cases read
      · next allocatable =>
        split at read
        · cases read
        · next taken left fieldRead =>
          obtain ⟨fieldWritten, sized⟩ := readField_eq_ok_iff.mp fieldRead
          cases read
          refine ⟨?_, by omega⟩
          calc octets = Bytes.littleEndian 8 length ++ after.val := countWritten
            _ = Bytes.littleEndian 8 length ++ (field ++ left.val) := congrArg _ fieldWritten
            _ = Bytes.littleEndian 8 field.length ++ field ++ left.val := by
              rw [sized, List.append_assoc]
  · rintro ⟨written, allocatable⟩
    obtain ⟨rest, shorter⟩ := rest
    dsimp only at written
    subst written
    have counted : readNumber 8 (Nat.zero_lt_succ _)
        (Bytes.littleEndian 8 field.length ++ field ++ rest) =
          .ok (field.length, ⟨field ++ rest, by simp⟩) :=
      readNumber_eq_ok_iff.mpr ⟨List.append_assoc _ _ _, fits_of_allocatable allocatable⟩
    have taken : readField field.length (field ++ rest) = .ok (field, ⟨rest, by simp⟩) :=
      readField_eq_ok_iff.mpr ⟨rfl, rfl⟩
    simp only [readOctets, counted, taken, Nat.not_lt_of_le allocatable, ↓reduceIte]

/-- The octets of a node up to its children. -/
def Header.write : Header → Bytes
  | .text octets => Bytes.littleEndian 4 1 ++ (Bytes.littleEndian 8 octets.length ++ octets)
  | .expansion name arity =>
    Bytes.littleEndian 4 0 ++
      (Bytes.littleEndian 8 (Bytes.ofString name).length ++ Bytes.ofString name ++
        Bytes.littleEndian 8 arity)

/-- The lengths that a node declares before its children can be allocated. -/
def Header.Storable : Header → Prop
  | .text octets => octets.length ≤ allocationLimit
  | .expansion name arity =>
    (Bytes.ofString name).length ≤ allocationLimit ∧ entrySize * arity ≤ allocationLimit

/-- An expansion up to its children is written field by field. Each reader gives the rest as it
stands in front of the next field, and this puts the fields together again. -/
theorem Header.write_expansion {octets after left last : Bytes} {name : String} {arity : Nat}
    (variant : octets = Bytes.littleEndian 4 0 ++ after)
    (named : after =
      Bytes.littleEndian 8 (Bytes.ofString name).length ++ Bytes.ofString name ++ left)
    (counted : left = Bytes.littleEndian 8 arity ++ last) :
    octets = (Header.expansion name arity).write ++ last := by
  rw [variant, named, counted]
  simp only [Header.write, List.append_assoc]

/-- What the reader of a node up to its children accepts is its written form. The variants that are
neither of the two kinds of nodes are refused, and names that are not text as well. -/
theorem write_of_readHeader {octets : Bytes} {header : Header} {rest : Shorter octets}
    (read : readHeader octets = .ok (header, rest)) :
    octets = header.write ++ rest.val ∧ header.Storable := by
  simp only [readHeader] at read
  split at read
  · cases read
  · next after variant =>
    obtain ⟨variantWritten, -⟩ := readNumber_eq_ok_iff.mp variant
    split at read
    · cases read
    · next field left named =>
      obtain ⟨nameWritten, nameAllocatable⟩ := readOctets_eq_ok_iff.mp named
      split at read
      · cases read
      · next name decoded =>
        obtain rfl := (Text.Utf8.decode_eq_ok_iff _ _).mp decoded
        split at read
        · cases read
        · next arity last counted =>
          obtain ⟨arityWritten, -⟩ := readNumber_eq_ok_iff.mp counted
          split at read
          · cases read
          · next allocatable =>
            cases read
            exact ⟨Header.write_expansion variantWritten nameWritten arityWritten, nameAllocatable,
              by omega⟩
  · next after variant =>
    obtain ⟨variantWritten, -⟩ := readNumber_eq_ok_iff.mp variant
    split at read
    · cases read
    · next field left filled =>
      obtain ⟨fieldWritten, allocatable⟩ := readOctets_eq_ok_iff.mp filled
      cases read
      refine ⟨?_, allocatable⟩
      calc octets = Bytes.littleEndian 4 1 ++ after.val := variantWritten
        _ = Bytes.littleEndian 4 1 ++ (Bytes.littleEndian 8 field.length ++ field ++ left.val) :=
          congrArg _ fieldWritten
        _ = (Header.text field).write ++ left.val := by
          simp only [Header.write, List.append_assoc]
  · cases read

/-- The written form of an expansion up to its children is read back, if an allocation can hold
the child list that it declares. -/
theorem readHeader_expansion {octets : Bytes} {name : String} {arity : Nat}
    {rest : Shorter octets} (written : octets = (Header.expansion name arity).write ++ rest.val)
    (nameAllocatable : (Bytes.ofString name).length ≤ allocationLimit)
    (fits : arity < Bytes.countOfWidth 8) :
    readHeader octets =
      if allocationLimit < entrySize * arity then
        .error (.fault (.oversizedLength (entrySize * arity)))
      else .ok (.expansion name arity, rest) := by
  obtain ⟨rest, shorter⟩ := rest
  have variant : readNumber 4 (Nat.zero_lt_succ _) octets =
      .ok (0, ⟨Bytes.littleEndian 8 (Bytes.ofString name).length ++ Bytes.ofString name ++
        (Bytes.littleEndian 8 arity ++ rest), by
        simp only [written, Header.write, List.length_append, Bytes.length_littleEndian]
        omega⟩) :=
    readNumber_eq_ok_iff.mpr ⟨by simp only [written, Header.write, List.append_assoc], by decide⟩
  have named : readOctets (Bytes.littleEndian 8 (Bytes.ofString name).length ++
      Bytes.ofString name ++ (Bytes.littleEndian 8 arity ++ rest)) =
        .ok (Bytes.ofString name, ⟨Bytes.littleEndian 8 arity ++ rest, by simp; omega⟩) :=
    readOctets_eq_ok_iff.mpr ⟨rfl, nameAllocatable⟩
  have counted : readNumber 8 (Nat.zero_lt_succ _) (Bytes.littleEndian 8 arity ++ rest) =
      .ok (arity, ⟨rest, by simp⟩) :=
    readNumber_eq_ok_iff.mpr ⟨rfl, fits⟩
  simp only [readHeader, variant, named, Text.Utf8.decode_ofString, counted]

/-- The written form of a node up to its children is read back, whatever follows it, if an
allocation can hold what the node declares. -/
theorem readHeader_write {octets : Bytes} {header : Header} {rest : Shorter octets}
    (written : octets = header.write ++ rest.val) (storable : header.Storable) :
    readHeader octets = .ok (header, rest) := by
  cases header with
  | text field =>
    obtain ⟨rest, shorter⟩ := rest
    have variant : readNumber 4 (Nat.zero_lt_succ _) octets =
        .ok (1, ⟨Bytes.littleEndian 8 field.length ++ field ++ rest, by
          simp only [written, Header.write, List.length_append, Bytes.length_littleEndian]
          omega⟩) :=
      readNumber_eq_ok_iff.mpr ⟨by simp only [written, Header.write, List.append_assoc], by decide⟩
    have filled : readOctets (Bytes.littleEndian 8 field.length ++ field ++ rest) =
        .ok (field, ⟨rest, by simp; omega⟩) :=
      readOctets_eq_ok_iff.mpr ⟨rfl, storable⟩
    simp only [readHeader, variant, filled]
  | expansion name arity =>
    obtain ⟨nameAllocatable, allocatable⟩ := storable
    have fits : arity < Bytes.countOfWidth 8 := by
      apply fits_of_allocatable
      simp only [entrySize] at allocatable
      omega
    rw [readHeader_expansion written nameAllocatable fits, if_neg (Nat.not_lt_of_le allocatable)]

/-- A node up to its children is read from exactly its written form. The readers of whole nodes rest
on this law alone and look into no field. -/
theorem readHeader_eq_ok_iff {octets : Bytes} {header : Header} {rest : Shorter octets} :
    readHeader octets = .ok (header, rest) ↔
      octets = header.write ++ rest.val ∧ header.Storable :=
  ⟨write_of_readHeader, fun ⟨written, storable⟩ => readHeader_write written storable⟩

/-- What the reader of a node accepts is the written form of the node it returns, and
the reader of a row accepts the written forms of so many nodes. The induction is on
the calls that the two readers make of each other. -/
theorem write_of_read :
    (∀ (octets : Bytes) (wire : Wire) (rest : Shorter octets),
      readNode octets = .ok (wire, rest) → octets = wire.write ++ rest.val ∧ wire.Storable) ∧
    (∀ (arity : Nat) (octets : Bytes) (wires : List Wire) (rest : NotLonger octets),
      readRow arity octets = .ok (wires, rest) →
        octets = Wire.writeAll wires ++ rest.val ∧ wires.length = arity ∧
          Wire.StorableAll wires) := by
  refine readNode.mutual_induct
    (fun octets => ∀ (wire : Wire) (rest : Shorter octets),
      readNode octets = .ok (wire, rest) → octets = wire.write ++ rest.val ∧ wire.Storable)
    (fun arity octets => ∀ (wires : List Wire) (rest : NotLonger octets),
      readRow arity octets = .ok (wires, rest) →
        octets = Wire.writeAll wires ++ rest.val ∧ wires.length = arity ∧ Wire.StorableAll wires)
    ?refused ?leaf ?rowRefused ?node ?done ?firstRefused ?othersRefused ?row
  case refused =>
    intro octets refusal header wire rest read
    simp [readNode, header] at read
  case leaf =>
    intro octets field left header wire rest read
    obtain ⟨written, storable⟩ := readHeader_eq_ok_iff.mp header
    simp only [readNode, header] at read
    cases read
    exact ⟨written, storable⟩
  case rowRefused =>
    intro octets name arity left header refusal row inductionHypothesis wire rest read
    simp [readNode, header, row] at read
  case node =>
    intro octets name arity left header children last row inductionHypothesis wire rest read
    obtain ⟨headerWritten, nameStorable, arityStorable⟩ := readHeader_eq_ok_iff.mp header
    obtain ⟨rowWritten, counted, rowStorable⟩ := inductionHypothesis children last row
    simp only [readNode, header, row] at read
    cases read
    refine ⟨?_, nameStorable, counted.symm ▸ arityStorable, rowStorable⟩
    calc octets = (Header.expansion name arity).write ++ left.val := headerWritten
      _ = (Header.expansion name arity).write ++ (Wire.writeAll children ++ last.val) :=
        congrArg _ rowWritten
      _ = (Wire.expansion name children).write ++ last.val := by
        simp only [Header.write, Wire.write, counted, List.append_assoc]
  case done =>
    intro octets wires rest read
    simp only [readRow] at read
    cases read
    exact ⟨rfl, rfl, trivial⟩
  case firstRefused =>
    intro octets arity refusal first inductionHypothesis wires rest read
    simp [readRow, first] at read
  case othersRefused =>
    intro octets arity wire left first refusal others inductionHypothesis _ wires rest read
    simp [readRow, first, others] at read
  case row =>
    intro octets arity wire left first others last remaining firstHypothesis otherHypothesis
      wires rest read
    obtain ⟨firstWritten, firstStorable⟩ := firstHypothesis wire left first
    obtain ⟨othersWritten, counted, othersStorable⟩ := otherHypothesis others last remaining
    simp only [readRow, first, remaining] at read
    cases read
    refine ⟨?_, by simp [counted], firstStorable, othersStorable⟩
    calc octets = wire.write ++ left.val := firstWritten
      _ = wire.write ++ (Wire.writeAll others ++ last.val) := congrArg _ othersWritten
      _ = Wire.writeAll (wire :: others) ++ last.val := by
        simp only [Wire.writeAll, List.append_assoc]

mutual

/-- What is written for a node is read back, whatever follows it. The children are read one after
the other, each of them with the rest of the row behind it. -/
theorem readNode_write : (wire : Wire) → (octets : Bytes) → (rest : Shorter octets) →
    octets = wire.write ++ rest.val → wire.Storable → readNode octets = .ok (wire, rest)
  | .text field, octets, rest, written, storable => by
    have header : readHeader octets = .ok (.text field, rest) :=
      readHeader_eq_ok_iff.mpr
        ⟨by simpa only [Wire.write, Header.write, List.append_assoc] using written, storable⟩
    simp only [readNode, header]
  | .expansion name children, octets, rest, written,
      ⟨nameStorable, arityStorable, rowStorable⟩ => by
    have shorter : (Wire.writeAll children ++ rest.val).length < octets.length := by
      simp only [written, Wire.write, List.length_append, Bytes.length_littleEndian]
      omega
    have header : readHeader octets =
        .ok (.expansion name children.length, ⟨Wire.writeAll children ++ rest.val, shorter⟩) :=
      readHeader_eq_ok_iff.mpr
        ⟨by simpa only [Wire.write, Header.write, List.append_assoc] using written,
          nameStorable, arityStorable⟩
    have row : readRow children.length (Wire.writeAll children ++ rest.val) =
        .ok (children, ⟨rest.val, by simp⟩) :=
      readRow_writeAll children _ _ rfl rowStorable
    simp only [readNode, header, row]

/-- What is written for a row of nodes is read back, whatever follows it. The number of nodes is
known from the node above and is not written in the row. -/
theorem readRow_writeAll : (wires : List Wire) → (octets : Bytes) → (rest : NotLonger octets) →
    octets = Wire.writeAll wires ++ rest.val → Wire.StorableAll wires →
      readRow wires.length octets = .ok (wires, rest)
  | [], octets, ⟨rest, notLonger⟩, written, _ => by
    obtain rfl : octets = rest := written
    simp only [List.length_nil, readRow]
  | wire :: others, octets, rest, written, ⟨firstStorable, othersStorable⟩ => by
    have written : octets = wire.write ++ (Wire.writeAll others ++ rest.val) := by
      simpa only [Wire.writeAll, List.append_assoc] using written
    have shorter : (Wire.writeAll others ++ rest.val).length < octets.length := by
      have := Wire.write_nonempty wire
      simp only [written, List.length_append]
      omega
    have first : readNode octets = .ok (wire, ⟨Wire.writeAll others ++ rest.val, shorter⟩) :=
      readNode_write wire octets _ written firstStorable
    have remaining : readRow others.length (Wire.writeAll others ++ rest.val) =
        .ok (others, ⟨rest.val, by simp⟩) :=
      readRow_writeAll others _ _ rfl othersStorable
    simp only [List.length_cons, readRow, first, remaining]

end

/-- A node is read from exactly its written form. So there is one form for each node, and the reader
can be replaced by the writer wherever it succeeds. -/
theorem readNode_eq_ok_iff {octets : Bytes} {wire : Wire} {rest : Shorter octets} :
    readNode octets = .ok (wire, rest) ↔ octets = wire.write ++ rest.val ∧ wire.Storable :=
  ⟨write_of_read.1 octets wire rest,
    fun ⟨written, storable⟩ => readNode_write wire octets rest written storable⟩

end Sample

end Graft
