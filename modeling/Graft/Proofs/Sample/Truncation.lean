import Graft.Proofs.Grammar.Table
import Graft.Proofs.Sample.Layout

/-!
# Samples that are cut short or continued

No written tree is the beginning of another one. Wherever a sample is cut, some
field is reached that is not all there: the number of a variant, a length, the
octets behind a length, or a node of a row. Reading stops at that field and says
how many octets it lacks, which are never more than were cut off. What follows a
whole tree is not looked at, and only counted.

Either happens before any name is looked up, so that it does not matter which
symbols a grammar has.
-/

namespace Graft

namespace Sample

variable {α : Type}

/-- Reading stops because the octets end, for want of no more octets than were cut off. -/
def FallsShort (reading : Except Refusal α) (cut : Bytes) : Prop :=
  ∃ additional, reading = .error (.error (.unexpectedEnd additional)) ∧
    1 ≤ additional ∧ additional ≤ cut.length

/-- What is wanting of one field is wanting of all that was to follow. The count that is reported is
of the field alone and may be less than what was cut off. -/
theorem FallsShort.append {reading : Except Refusal α} {missing : Bytes}
    (short : FallsShort reading missing) (further : Bytes) :
    FallsShort reading (missing ++ further) := by
  obtain ⟨additional, stopped, least, within⟩ := short
  use additional, stopped, least
  rw [List.length_append]
  omega

/-- A reader that passes refusals on falls short where the reading it starts with does, and by as
much. -/
theorem FallsShort.pass {β : Type} {reading : Except Refusal α} {whole : Except Refusal β}
    {cut : Bytes} (short : FallsShort reading cut)
    (passes : ∀ refusal, reading = .error refusal → whole = .error refusal) :
    FallsShort whole cut := by
  obtain ⟨additional, stopped, bounds⟩ := short
  exact ⟨additional, passes _ stopped, bounds⟩

/-- Of two pieces in a row either the first is cut, or all of it is kept and the second one is cut
somewhere. This is the case split of every reader that reads two things in turn. -/
theorem cut_cases {first second kept cut : Bytes} (whole : first ++ second = kept ++ cut) :
    (∃ missing, missing ≠ [] ∧ first = kept ++ missing ∧ cut = missing ++ second) ∨
      ∃ later, kept = first ++ later ∧ second = later ++ cut := by
  rcases List.append_eq_append_iff.mp whole with ⟨later, kept, second⟩ | ⟨missing, first, cut⟩
  · exact .inr ⟨later, kept, second⟩
  · by_cases nothing : missing = []
    · subst nothing
      right
      use []
      rw [List.append_nil] at first
      exact ⟨by rw [first, List.append_nil], cut.symm⟩
    · exact .inl ⟨missing, nothing, first, cut⟩

/-- A number that is cut falls short, by exactly the octets that were cut off. -/
theorem readNumber_of_cut {width : Nat} (positive : 0 < width) {value : Nat} {kept cut : Bytes}
    (whole : Bytes.littleEndian width value = kept ++ cut) (missing : cut ≠ []) :
    FallsShort (readNumber width positive kept) cut := by
  have length : width = kept.length + cut.length := by
    rw [← List.length_append, ← whole, Bytes.length_littleEndian]
  have least : 0 < cut.length := List.length_pos_iff.mpr missing
  have field : kept.take width = kept := List.take_of_length_le (by omega)
  have short : kept.length < width := by omega
  use cut.length
  constructor
  · simp only [readNumber, field, short, ↓reduceDIte]
    rw [length, Nat.add_sub_cancel_left]
  · exact ⟨least, Nat.le_refl _⟩

/-- Octets that are cut, or their number is, fall short. With the number complete it is known how
many octets there should be, and the number itself is small enough not to be a fault. -/
theorem readOctets_of_cut {field kept cut : Bytes} (allocatable : field.length ≤ allocationLimit)
    (whole : Bytes.littleEndian 8 field.length ++ field = kept ++ cut) (missing : cut ≠ []) :
    FallsShort (readOctets kept) cut := by
  rcases cut_cases whole with ⟨lost, nonempty, number, rfl⟩ | ⟨later, rfl, rest⟩
  · have short := (readNumber_of_cut (Nat.zero_lt_succ _) number nonempty).append field
    apply short.pass
    intro refusal stopped
    simp only [readOctets, stopped]
  · have counted : readNumber 8 (Nat.zero_lt_succ _)
        (Bytes.littleEndian 8 field.length ++ later) = .ok (field.length, ⟨later, by simp⟩) :=
      readNumber_eq_ok_iff.mpr ⟨rfl, fits_of_allocatable allocatable⟩
    have length : field.length = later.length + cut.length := by
      rw [← List.length_append, ← rest]
    have least : 0 < cut.length := List.length_pos_iff.mpr missing
    have available : later.take field.length = later := List.take_of_length_le (by omega)
    have short : later.length < field.length := by omega
    use cut.length
    constructor
    · simp only [readOctets, counted, Nat.not_lt_of_le allocatable, ↓reduceIte, readField,
        available, short]
      rw [length, Nat.add_sub_cancel_left]
    · exact ⟨least, Nat.le_refl _⟩

/-- A node that is cut before its children falls short, in whichever of its fields the cut is. -/
theorem readHeader_of_cut {header : Header} (storable : header.Storable) {kept cut : Bytes}
    (whole : header.write = kept ++ cut) (missing : cut ≠ []) :
    FallsShort (readHeader kept) cut := by
  cases header with
  | text octets =>
    rw [Header.write] at whole
    rcases cut_cases whole with ⟨lost, nonempty, number, rfl⟩ | ⟨later, rfl, rest⟩
    · have short := (readNumber_of_cut (Nat.zero_lt_succ _) number nonempty).append
        (Bytes.littleEndian 8 octets.length ++ octets)
      apply short.pass
      intro refusal stopped
      simp only [readHeader, stopped]
    · have variant : readNumber 4 (Nat.zero_lt_succ _) (Bytes.littleEndian 4 1 ++ later) =
          .ok (1, ⟨later, by simp⟩) := readNumber_eq_ok_iff.mpr ⟨rfl, by decide⟩
      apply (readOctets_of_cut storable rest missing).pass
      intro refusal stopped
      simp only [readHeader, variant, stopped]
  | expansion name arity =>
    obtain ⟨nameStorable, -⟩ := storable
    rw [Header.write] at whole
    rcases cut_cases whole with ⟨lost, nonempty, number, rfl⟩ | ⟨later, rfl, rest⟩
    · have short := (readNumber_of_cut (Nat.zero_lt_succ _) number nonempty).append
        (Bytes.littleEndian 8 (Bytes.ofString name).length ++ Bytes.ofString name ++
          Bytes.littleEndian 8 arity)
      apply short.pass
      intro refusal stopped
      simp only [readHeader, stopped]
    · have variant : readNumber 4 (Nat.zero_lt_succ _) (Bytes.littleEndian 4 0 ++ later) =
          .ok (0, ⟨later, by simp⟩) := readNumber_eq_ok_iff.mpr ⟨rfl, by decide⟩
      rcases cut_cases rest with ⟨lost, nonempty, octets, rfl⟩ | ⟨last, rfl, number⟩
      · have short := (readOctets_of_cut nameStorable octets nonempty).append
          (Bytes.littleEndian 8 arity)
        apply short.pass
        intro refusal stopped
        simp only [readHeader, variant, stopped]
      · have named : readOctets (Bytes.littleEndian 8 (Bytes.ofString name).length ++
            Bytes.ofString name ++ last) = .ok (Bytes.ofString name, ⟨last, by simp; omega⟩) :=
          readOctets_eq_ok_iff.mpr ⟨rfl, nameStorable⟩
        apply (readNumber_of_cut (Nat.zero_lt_succ _) number missing).pass
        intro refusal stopped
        simp only [readHeader, variant, named, Text.Utf8.decode_ofString, stopped]

mutual

/-- A node that is cut anywhere falls short. Behind its header the cut goes through one of the
children, of which it is told how many there should be. -/
theorem readNode_of_cut : (wire : Wire) → wire.Storable → (kept cut : Bytes) →
    wire.write = kept ++ cut → cut ≠ [] → FallsShort (readNode kept) cut
  | .text octets, storable, kept, cut, whole, missing => by
    have textStorable : (Header.text octets).Storable := storable
    have header : (Header.text octets).write = kept ++ cut := by
      rw [← whole, Header.write, Wire.write, List.append_assoc]
    apply (readHeader_of_cut textStorable header missing).pass
    intro refusal stopped
    simp only [readNode, stopped]
  | .expansion name children, ⟨nameStorable, arityStorable, rowStorable⟩, kept, cut, whole,
      missing => by
    have storable : (Header.expansion name children.length).Storable :=
      ⟨nameStorable, arityStorable⟩
    have whole : (Header.expansion name children.length).write ++ Wire.writeAll children =
        kept ++ cut := by
      rw [← whole]
      simp only [Header.write, Wire.write, List.append_assoc]
    rcases cut_cases whole with ⟨lost, nonempty, header, rfl⟩ | ⟨later, rfl, row⟩
    · have short := (readHeader_of_cut storable header nonempty).append (Wire.writeAll children)
      apply short.pass
      intro refusal stopped
      simp only [readNode, stopped]
    · have shorter : later.length <
          ((Header.expansion name children.length).write ++ later).length := by
        simp only [Header.write, List.length_append, Bytes.length_littleEndian]
        omega
      have header : readHeader ((Header.expansion name children.length).write ++ later) =
          .ok (.expansion name children.length, ⟨later, shorter⟩) :=
        readHeader_eq_ok_iff.mpr ⟨rfl, storable⟩
      apply (readRow_of_cut children rowStorable later cut row missing).pass
      intro refusal stopped
      simp only [readNode, header, stopped]

/-- A row that is cut anywhere falls short, within the node that the cut goes through. The nodes
before it are read, and those behind it are not come to. -/
theorem readRow_of_cut : (wires : List Wire) → Wire.StorableAll wires → (kept cut : Bytes) →
    Wire.writeAll wires = kept ++ cut → cut ≠ [] → FallsShort (readRow wires.length kept) cut
  | [], _, kept, cut, whole, missing => by
    have nothing : cut = [] := (List.append_eq_nil_iff.mp whole.symm).2
    exact absurd nothing missing
  | wire :: others, ⟨firstStorable, othersStorable⟩, kept, cut, whole, missing => by
    rw [Wire.writeAll] at whole
    rcases cut_cases whole with ⟨lost, nonempty, first, rfl⟩ | ⟨later, rfl, rest⟩
    · have short :=
        (readNode_of_cut wire firstStorable kept lost first nonempty).append (Wire.writeAll others)
      apply short.pass
      intro refusal stopped
      simp only [List.length_cons, readRow, stopped]
    · have shorter : later.length < (wire.write ++ later).length := by
        have written := Wire.write_nonempty wire
        rw [List.length_append]
        omega
      have first : readNode (wire.write ++ later) = .ok (wire, ⟨later, shorter⟩) :=
        readNode_eq_ok_iff.mpr ⟨rfl, firstStorable⟩
      apply (readRow_of_cut others othersStorable later cut rest missing).pass
      intro refusal stopped
      simp only [List.length_cons, readRow, first, stopped]

end

end Sample

namespace Grammar

/-- A written tree is refused by every grammar if octets follow it, and what is left of it is
refused if octets are cut off. The octets are to blame in either case: those that follow are
counted, and of those that were cut off one field at least is told to lack some, and no more than
there were. -/
theorem readSample_of_altered (grammar : Grammar) {wire : Wire} (storable : wire.Storable) :
    (∀ further, further ≠ [] →
      grammar.readSample (wire.write ++ further) = .error (.error (.trailing further.length)) ∧
        (SampleError.trailing further.length).decodingFault? =
          some (toString further.length ++ " trailing bytes after tree")) ∧
    ∀ kept cut, wire.write = kept ++ cut → kept ≠ [] → cut ≠ [] →
      ∃ additional, 1 ≤ additional ∧ additional ≤ cut.length ∧
        grammar.readSample kept = .error (.error (.unexpectedEnd additional)) ∧
          (SampleError.unexpectedEnd additional).decodingFault? =
            some ("UnexpectedEnd \x7b additional: " ++ toString additional ++ " \x7d") := by
  constructor
  · intro further something
    have inhabited : (wire.write ++ further).isEmpty = false := by
      simpa using fun _ => something
    have shorter : further.length < (wire.write ++ further).length := by
      have nonempty := Wire.write_nonempty wire
      rw [List.length_append]
      omega
    have node : Sample.readNode (wire.write ++ further) = .ok (wire, ⟨further, shorter⟩) :=
      Sample.readNode_eq_ok_iff.mpr ⟨rfl, storable⟩
    constructor
    · simp [readSample, inhabited, node, something]
    · rfl
  · intro kept cut whole something missing
    obtain ⟨additional, stopped, positive, within⟩ :=
      Sample.readNode_of_cut wire storable kept cut whole missing
    use additional, positive, within
    constructor
    · simp [readSample, something, stopped]
    · rfl

/-- A numeral whose symbol no grammar of numerals knows. -/
def unknownNumeral : Wire := .expansion "numeral" [.text [49], .expansion "digit" []]

/-- An unknown numeral is refused for the octet that follows it, or for its last six octets being
cut off, and not for its name. -/
theorem readSample_of_altered_unknownNumeral :
    unknownNumeral.Storable ∧
      numerals.readSample (unknownNumeral.write ++ [0]) = .error (.error (.trailing 1)) ∧
      ∃ additional, 1 ≤ additional ∧ additional ≤ 6 ∧
        numerals.readSample (unknownNumeral.write.take (unknownNumeral.write.length - 6)) =
          .error (.error (.unexpectedEnd additional)) := by
  have storable : unknownNumeral.Storable := by decide
  obtain ⟨continued, cut⟩ := readSample_of_altered numerals storable
  obtain ⟨additional, positive, within, refused, -⟩ :=
    cut _ _ (List.take_append_drop (unknownNumeral.write.length - 6) unknownNumeral.write).symm
      (by decide +kernel) (by decide +kernel)
  use storable, (continued [0] (by decide)).1, additional, positive
  exact ⟨within, refused⟩

end Grammar

end Graft
