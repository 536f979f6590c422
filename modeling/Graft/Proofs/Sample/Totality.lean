import Graft.Proofs.Grammar.Table
import Graft.Proofs.Sample.Layout

/-!
# Whatever octets are read

Any octets at all are read as a tree or refused, except where they declare a
length that no allocation can hold. That is the one fault of reading. It comes
from the first length of this kind that is met: of a leaf, of a name or of a child
list, in a node that everything before it leads to. What follows the length does
not matter, and need not be there.
-/

namespace Graft

namespace Sample

/-- Octets that start with a node in which a length is met that no allocation can hold, with
everything before it as it should be. -/
inductive Overdraws : Bytes → Nat → Prop where
  /-- The length of a leaf. -/
  | text (length : Nat) (rest : Bytes) (oversized : allocationLimit < length)
      (fits : length < Bytes.countOfWidth 8) :
      Overdraws (Bytes.littleEndian 4 1 ++ (Bytes.littleEndian 8 length ++ rest)) length
  /-- The length of a name. -/
  | name (length : Nat) (rest : Bytes) (oversized : allocationLimit < length)
      (fits : length < Bytes.countOfWidth 8) :
      Overdraws (Bytes.littleEndian 4 0 ++ (Bytes.littleEndian 8 length ++ rest)) length
  /-- The length of a child list. -/
  | row (name : String) (arity : Nat) (rest : Bytes)
      (nameStorable : (Bytes.ofString name).length ≤ allocationLimit)
      (oversized : allocationLimit < entrySize * arity) (fits : arity < Bytes.countOfWidth 8) :
      Overdraws ((Header.expansion name arity).write ++ rest) (entrySize * arity)
  /-- A length in a child, after children that are read. -/
  | child (name : String) (arity : Nat) (earlier : List Wire) (rest : Bytes) (length : Nat)
      (storable : (Header.expansion name arity).Storable) (allStorable : Wire.StorableAll earlier)
      (further : earlier.length < arity) (overdraws : Overdraws rest length) :
      Overdraws ((Header.expansion name arity).write ++ (Wire.writeAll earlier ++ rest)) length

/-- To read a number is no fault. Where octets are wanting it is refused, and every octet may stand
in a number. -/
theorem readNumber_ne_fault {width : Nat} {positive : 0 < width} {octets : Bytes} {fault : Fault} :
    readNumber width positive octets ≠ .error (.fault fault) := by
  simp only [readNumber]
  split <;> simp

/-- To read octets that are preceded by their number is a fault exactly if the number is beyond
every allocation. -/
theorem readOctets_eq_fault_iff {octets : Bytes} {fault : Fault} :
    readOctets octets = .error (.fault fault) ↔
      ∃ length rest, octets = Bytes.littleEndian 8 length ++ rest ∧
        allocationLimit < length ∧ length < Bytes.countOfWidth 8 ∧
          fault = .oversizedLength length := by
  constructor
  · intro faulty
    simp only [readOctets] at faulty
    split at faulty
    · next refusal counted =>
      cases faulty
      exact absurd counted readNumber_ne_fault
    · next length after counted =>
      obtain ⟨written, fits⟩ := readNumber_eq_ok_iff.mp counted
      split at faulty
      · next oversized =>
        cases faulty
        exact ⟨length, after.val, written, oversized, fits, rfl⟩
      · simp only [readField] at faulty
        split at faulty
        · next refused =>
          split at refused <;> cases refused
          cases faulty
        · cases faulty
  · rintro ⟨length, rest, rfl, oversized, fits, rfl⟩
    have counted : readNumber 8 (Nat.zero_lt_succ _) (Bytes.littleEndian 8 length ++ rest) =
        .ok (length, ⟨rest, by simp⟩) := readNumber_eq_ok_iff.mpr ⟨rfl, fits⟩
    simp only [readOctets, counted, oversized, ↓reduceIte]

/-- A fault of reading a node up to its children is that of a length beyond every allocation, be it
the length of a text, of a name or of a child list. -/
theorem overdraws_of_readHeader {octets : Bytes} {fault : Fault}
    (faulty : readHeader octets = .error (.fault fault)) :
    ∃ length, fault = .oversizedLength length ∧ Overdraws octets length := by
  simp only [readHeader] at faulty
  split at faulty
  · next refusal variant =>
    cases faulty
    exact absurd variant readNumber_ne_fault
  · next after variant =>
    obtain ⟨variantWritten, -⟩ := readNumber_eq_ok_iff.mp variant
    split at faulty
    · next refusal named =>
      cases faulty
      obtain ⟨length, rest, written, oversized, fits, rfl⟩ := readOctets_eq_fault_iff.mp named
      rw [variantWritten, written]
      exact ⟨length, rfl, .name length rest oversized fits⟩
    · next field left named =>
      obtain ⟨nameWritten, nameStorable⟩ := readOctets_eq_ok_iff.mp named
      split at faulty
      · cases faulty
      · next name decoded =>
        obtain rfl := (Text.Utf8.decode_eq_ok_iff _ _).mp decoded
        split at faulty
        · next refusal counted =>
          cases faulty
          exact absurd counted readNumber_ne_fault
        · next arity last counted =>
          obtain ⟨arityWritten, fits⟩ := readNumber_eq_ok_iff.mp counted
          split at faulty
          · next oversized =>
            cases faulty
            rw [Header.write_expansion variantWritten nameWritten arityWritten]
            exact ⟨_, rfl, .row name arity last.val nameStorable oversized fits⟩
          · cases faulty
  · next after variant =>
    obtain ⟨variantWritten, -⟩ := readNumber_eq_ok_iff.mp variant
    split at faulty
    · next refusal filled =>
      cases faulty
      obtain ⟨length, rest, written, oversized, fits, rfl⟩ := readOctets_eq_fault_iff.mp filled
      rw [variantWritten, written]
      exact ⟨length, rfl, .text length rest oversized fits⟩
    · cases faulty
  · cases faulty

/-- The octets of a row start with nodes that are read, and go on with one that overdraws. -/
def OverdrawsAll (arity : Nat) (octets : Bytes) (length : Nat) : Prop :=
  ∃ earlier rest, octets = Wire.writeAll earlier ++ rest ∧ Wire.StorableAll earlier ∧
    earlier.length < arity ∧ Overdraws rest length

/-- A fault of reading a node, or a row of them, is that of a length beyond every allocation.
The induction is on the calls that the two readers make of each other. -/
theorem overdraws_of_read :
    (∀ (octets : Bytes) (fault : Fault), readNode octets = .error (.fault fault) →
      ∃ length, fault = .oversizedLength length ∧ Overdraws octets length) ∧
    (∀ (arity : Nat) (octets : Bytes) (fault : Fault),
      readRow arity octets = .error (.fault fault) →
        ∃ length, fault = .oversizedLength length ∧ OverdrawsAll arity octets length) := by
  refine readNode.mutual_induct
    (fun octets => ∀ fault, readNode octets = .error (.fault fault) →
      ∃ length, fault = .oversizedLength length ∧ Overdraws octets length)
    (fun arity octets => ∀ fault, readRow arity octets = .error (.fault fault) →
      ∃ length, fault = .oversizedLength length ∧ OverdrawsAll arity octets length)
    ?refused ?leaf ?rowRefused ?node ?done ?firstRefused ?othersRefused ?row
  case refused =>
    intro octets refusal header fault faulty
    simp only [readNode, header] at faulty
    cases faulty
    exact overdraws_of_readHeader header
  case leaf =>
    intro octets field left header fault faulty
    simp [readNode, header] at faulty
  case rowRefused =>
    intro octets name arity left header refusal row inductionHypothesis fault faulty
    simp only [readNode, header, row] at faulty
    cases faulty
    obtain ⟨length, rfl, earlier, rest, written, storable, further, overdraws⟩ :=
      inductionHypothesis fault row
    obtain ⟨headerWritten, headerStorable⟩ := readHeader_eq_ok_iff.mp header
    rw [headerWritten, written]
    exact ⟨length, rfl, .child name arity earlier rest length headerStorable storable further
      overdraws⟩
  case node =>
    intro octets name arity left header children last row inductionHypothesis fault faulty
    simp [readNode, header, row] at faulty
  case done =>
    intro octets fault faulty
    simp [readRow] at faulty
  case firstRefused =>
    intro octets arity refusal first inductionHypothesis fault faulty
    simp only [readRow, first] at faulty
    cases faulty
    obtain ⟨length, rfl, overdraws⟩ := inductionHypothesis fault first
    exact ⟨length, rfl, [], octets, rfl, trivial, Nat.zero_lt_succ arity, overdraws⟩
  case othersRefused =>
    intro octets arity wire left first refusal others _ inductionHypothesis fault faulty
    simp only [readRow, first, others] at faulty
    cases faulty
    obtain ⟨length, rfl, earlier, rest, written, storable, further, overdraws⟩ :=
      inductionHypothesis fault others
    obtain ⟨firstWritten, firstStorable⟩ := readNode_eq_ok_iff.mp first
    refine ⟨length, rfl, wire :: earlier, rest, ?_, ⟨firstStorable, storable⟩,
      Nat.succ_lt_succ further, overdraws⟩
    rw [firstWritten, written, Wire.writeAll, List.append_assoc]
  case row =>
    intro octets arity wire left first others last remaining _ _ fault faulty
    simp [readRow, first, remaining] at faulty

/-- Where a node overdraws after others that are read, the row does. The nodes before it take up
just their octets and leave it what it overdraws on. -/
theorem readRow_eq_fault {earlier : List Wire} {arity : Nat} {rest : Bytes} {fault : Fault}
    (storable : Wire.StorableAll earlier) (further : earlier.length < arity)
    (faulty : readNode rest = .error (.fault fault)) :
    readRow arity (Wire.writeAll earlier ++ rest) = .error (.fault fault) := by
  induction earlier generalizing arity with
  | nil =>
    cases arity with
    | zero => cases further
    | succ arity => simp only [Wire.writeAll, List.nil_append, readRow, faulty]
  | cons wire earlier inductionHypothesis =>
    cases arity with
    | zero => cases further
    | succ arity =>
      have shorter : (Wire.writeAll earlier ++ rest).length <
          (Wire.writeAll (wire :: earlier) ++ rest).length := by
        have nonempty := Wire.write_nonempty wire
        simp only [Wire.writeAll, List.length_append]
        omega
      have first : readNode (Wire.writeAll (wire :: earlier) ++ rest) =
          .ok (wire, ⟨Wire.writeAll earlier ++ rest, shorter⟩) :=
        readNode_eq_ok_iff.mpr ⟨by simp only [Wire.writeAll, List.append_assoc], storable.1⟩
      have others := inductionHypothesis storable.2 (Nat.lt_of_succ_lt_succ further)
      simp only [readRow, first, others]

/-- To read a node that overdraws is a fault. The length at fault is the first of its kind, as
everything before it is read. -/
theorem readNode_of_overdraws {octets : Bytes} {length : Nat}
    (overdraws : Overdraws octets length) :
    readNode octets = .error (.fault (.oversizedLength length)) := by
  induction overdraws with
  | text length rest oversized fits =>
    have variant : readNumber 4 (Nat.zero_lt_succ _)
        (Bytes.littleEndian 4 1 ++ (Bytes.littleEndian 8 length ++ rest)) =
          .ok (1, ⟨Bytes.littleEndian 8 length ++ rest, by simp⟩) :=
      readNumber_eq_ok_iff.mpr ⟨rfl, by decide⟩
    have filled : readOctets (Bytes.littleEndian 8 length ++ rest) =
        .error (.fault (.oversizedLength length)) :=
      readOctets_eq_fault_iff.mpr ⟨length, rest, rfl, oversized, fits, rfl⟩
    simp only [readNode, readHeader, variant, filled]
  | name length rest oversized fits =>
    have variant : readNumber 4 (Nat.zero_lt_succ _)
        (Bytes.littleEndian 4 0 ++ (Bytes.littleEndian 8 length ++ rest)) =
          .ok (0, ⟨Bytes.littleEndian 8 length ++ rest, by simp⟩) :=
      readNumber_eq_ok_iff.mpr ⟨rfl, by decide⟩
    have named : readOctets (Bytes.littleEndian 8 length ++ rest) =
        .error (.fault (.oversizedLength length)) :=
      readOctets_eq_fault_iff.mpr ⟨length, rest, rfl, oversized, fits, rfl⟩
    simp only [readNode, readHeader, variant, named]
  | row name arity rest nameStorable oversized fits =>
    have shorter : rest.length < ((Header.expansion name arity).write ++ rest).length := by
      simp only [Header.write, List.length_append, Bytes.length_littleEndian]
      omega
    have header : readHeader ((Header.expansion name arity).write ++ rest) =
        if allocationLimit < entrySize * arity then
          .error (.fault (.oversizedLength (entrySize * arity)))
        else .ok (.expansion name arity, ⟨rest, shorter⟩) :=
      readHeader_expansion rfl nameStorable fits
    rw [if_pos oversized] at header
    simp only [readNode, header]
  | child name arity earlier rest length storable allStorable further overdraws
      inductionHypothesis =>
    have row := readRow_eq_fault allStorable further inductionHypothesis
    have shorter : (Wire.writeAll earlier ++ rest).length <
        ((Header.expansion name arity).write ++ (Wire.writeAll earlier ++ rest)).length := by
      simp only [Header.write, List.length_append, Bytes.length_littleEndian]
      omega
    have header : readHeader ((Header.expansion name arity).write ++
        (Wire.writeAll earlier ++ rest)) =
          .ok (.expansion name arity, ⟨Wire.writeAll earlier ++ rest, shorter⟩) :=
      readHeader_eq_ok_iff.mpr ⟨rfl, storable⟩
    simp only [readNode, header, row]

/-- To read a node is a fault exactly if it overdraws. The right side says it of the octets alone,
without a reader. -/
theorem readNode_eq_fault_iff {octets : Bytes} {fault : Fault} :
    readNode octets = .error (.fault fault) ↔
      ∃ length, fault = .oversizedLength length ∧ Overdraws octets length := by
  constructor
  · exact overdraws_of_read.1 octets fault
  · rintro ⟨length, rfl, overdraws⟩
    exact readNode_of_overdraws overdraws

/-- Octets that overdraw are not nothing, since a length is among them. An empty sample is refused
before it is read. -/
theorem Overdraws.nonempty {octets : Bytes} {length : Nat} (overdraws : Overdraws octets length) :
    octets ≠ [] := by
  rintro rfl
  have faulty := readNode_of_overdraws overdraws
  simp [readNode, readHeader, readNumber] at faulty

mutual

/-- A node that is written in no more octets than an allocation can hold is storable, or its
octets overdraw, whatever follows them: its fields have their lengths, and only a child list can
take up more than its octets. -/
theorem storable_or_overdraws : (wire : Wire) → wire.write.length ≤ allocationLimit →
    wire.Storable ∨ ∃ length, ∀ rest, Overdraws (wire.write ++ rest) length
  | .text octets, short => by
    left
    simp only [Wire.write, List.length_append, Bytes.length_littleEndian] at short
    simp only [Wire.Storable]
    omega
  | .expansion name children, short => by
    have entries := Wire.twelve_mul_le_length_writeAll children
    simp only [Wire.write, List.length_append, Bytes.length_littleEndian] at short
    have nameStorable : (Bytes.ofString name).length ≤ allocationLimit := by omega
    have fits : children.length < Bytes.countOfWidth 8 :=
      fits_of_allocatable (by omega)
    have written : ∀ rest, (Wire.expansion name children).write ++ rest =
        (Header.expansion name children.length).write ++ (Wire.writeAll children ++ rest) := by
      intro rest
      simp only [Wire.write, Header.write, List.append_assoc]
    by_cases allocatable : entrySize * children.length ≤ allocationLimit
    · rcases storableAll_or_overdraws children (by omega) with
        storable | ⟨earlier, length, storable, further, overdraws⟩
      · exact .inl ⟨nameStorable, allocatable, storable⟩
      · refine .inr ⟨length, fun rest => ?_⟩
        obtain ⟨later, split, overdraws⟩ := overdraws rest
        rw [written, split]
        exact .child name children.length earlier later length ⟨nameStorable, allocatable⟩
          storable further overdraws
    · refine .inr ⟨entrySize * children.length, fun rest => ?_⟩
      rw [written]
      exact .row name children.length _ nameStorable (Nat.lt_of_not_le allocatable) fits

/-- The same of a row: it is storable, or one of its nodes overdraws after others that are. What
comes after that node does not matter, for reading ends there. -/
theorem storableAll_or_overdraws : (wires : List Wire) →
    (Wire.writeAll wires).length ≤ allocationLimit →
      Wire.StorableAll wires ∨ ∃ earlier length, Wire.StorableAll earlier ∧
        earlier.length < wires.length ∧ ∀ rest, ∃ later,
          Wire.writeAll wires ++ rest = Wire.writeAll earlier ++ later ∧ Overdraws later length
  | [], _ => .inl trivial
  | wire :: wires, short => by
    rw [Wire.writeAll, List.length_append] at short
    rcases storable_or_overdraws wire (by omega) with storable | ⟨length, overdraws⟩
    · rcases storableAll_or_overdraws wires (by omega) with
        allStorable | ⟨earlier, length, earlierStorable, further, overdraws⟩
      · exact .inl ⟨storable, allStorable⟩
      · refine .inr ⟨wire :: earlier, length, ⟨storable, earlierStorable⟩,
          Nat.succ_lt_succ further, fun rest => ?_⟩
        obtain ⟨later, split, overdraws⟩ := overdraws rest
        refine ⟨later, ?_, overdraws⟩
        rw [Wire.writeAll, List.append_assoc, split, Wire.writeAll, List.append_assoc]
    · refine .inr ⟨[], length, trivial, Nat.zero_lt_succ _, fun rest => ?_⟩
      refine ⟨wire.write ++ (Wire.writeAll wires ++ rest), ?_, overdraws _⟩
      simp only [Wire.writeAll, List.nil_append, List.append_assoc]

end

end Sample

/-- To read a sample is a fault exactly if its octets overdraw. No grammar makes a difference, as
names are resolved only when all octets have been read. -/
theorem Grammar.readSample_eq_fault_iff {grammar : Grammar} {sample : Bytes} {fault : Fault} :
    grammar.readSample sample = .error (.fault fault) ↔
      ∃ length, fault = .oversizedLength length ∧ Sample.Overdraws sample length := by
  rw [← Sample.readNode_eq_fault_iff]
  constructor
  · intro faulty
    simp only [readSample] at faulty
    split at faulty
    · cases faulty
    · split at faulty
      · next refusal node =>
        cases faulty
        exact node
      · split at faulty
        · next wire rest node ended =>
          cases resolved : grammar.resolve wire <;> simp [resolved, Except.mapError] at faulty
        · cases faulty
  · intro faulty
    obtain ⟨length, -, overdraws⟩ := Sample.readNode_eq_fault_iff.mp faulty
    have inhabited : sample.isEmpty = false := by
      simpa using overdraws.nonempty
    simp [readSample, inhabited, faulty]

/-- A leaf of more octets than an allocation can hold is no tree and is not refused either. -/
theorem Grammar.readSample_numerals_oversized :
    Grammar.numerals.readSample [1, 0, 0, 0, 255, 255, 255, 255, 255, 255, 255, 255] =
      .error (.fault (.oversizedLength 18446744073709551615)) := by
  have written : ([1, 0, 0, 0, 255, 255, 255, 255, 255, 255, 255, 255] : Bytes) =
      Bytes.littleEndian 4 1 ++ (Bytes.littleEndian 8 18446744073709551615 ++ []) := by decide
  rw [written, readSample_eq_fault_iff]
  exact ⟨_, rfl, .text _ [] (by decide) (by decide)⟩

end Graft
