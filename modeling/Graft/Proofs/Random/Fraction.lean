import Graft.Proofs.Double
import Graft.Random.Chance

/-!
# Fractions that are drawn

A fraction is a number of 53 bits that is multiplied by two to the minus 53. Both
steps are exact: a number of 53 bits fills a mantissa without being rounded, and to
multiply it by a power of two changes its exponent alone. A fraction is zero,
therefore, or has an exponent below that of one.
-/

namespace Graft.Double

open Float.Model Float.Model.UnpackedFloat

/-- A full mantissa is not nothing, since its leading bit is a one. -/
theorem pos_of_full {mantissa : Nat} (full : mantissa.log2 = 52) : 0 < mantissa := by
  apply Nat.pos_of_ne_zero
  rintro rfl
  cases full

/-- Zeros behind a mantissa are places that it has more. To multiply by a power of two moves the
leading bit up and changes none. -/
theorem log2_mul_two_pow {mantissa : Nat} (inhabited : mantissa ≠ 0) (places : Nat) :
    (mantissa * 2 ^ places).log2 = mantissa.log2 + places := by
  have least := Nat.mul_le_mul_right (2 ^ places) (Nat.log2_self_le inhabited)
  have most := Nat.mul_lt_mul_of_pos_right (Nat.lt_log2_self (n := mantissa))
    (Nat.two_pow_pos places)
  rw [← Nat.pow_add] at least most
  rw [Nat.log2_eq_iff (Nat.mul_ne_zero inhabited (Nat.two_pow_pos places).ne')]
  constructor
  · exact least
  · rwa [Nat.add_right_comm]

/-- The exponent of a full mantissa is the one to aim at, also with zeros behind the mantissa. The
zeros count as places and lower the exponent by as many, so the sum is the same. -/
theorem targetExponent_of_full {mantissa : Nat} (full : mantissa.log2 = 52) (places : Nat)
    {exponent : Int} (reached : -1074 ≤ exponent) :
    Format.binary64.targetExponent
      (totalExponent (mantissa * 2 ^ places) (exponent - places)) = exponent := by
  have bits : Format.binary64.mantissaBits = 53 := rfl
  have least : Format.binary64.minExponent = -1074 := rfl
  simp only [Format.targetExponent, totalExponent, log2_mul_two_pow (pos_of_full full).ne', full,
    bits, least]
  omega

/-- To shift zeros away leaves the mantissa before them, and nothing to be rounded. Each zero goes
by itself, and the note on what was lost stays at nothing. -/
theorem shiftRight_zeros (mantissa places : Nat) :
    ExtendedMantissa.ofMantissaAndAccuracy (mantissa * 2 ^ places) .exact >>> places =
      ExtendedMantissa.ofMantissaAndAccuracy mantissa .exact := by
  induction places generalizing mantissa with
  | zero =>
    rw [Nat.pow_zero, Nat.mul_one]
    rfl
  | succ places inductionHypothesis =>
    have step (extended : ExtendedMantissa) :
        extended >>> (places + 1) = (extended >>> places).shiftRightOne := rfl
    have doubled : mantissa * 2 ^ (places + 1) = mantissa * 2 * 2 ^ places := by
      rw [Nat.pow_succ', Nat.mul_assoc]
    rw [step, doubled, inductionHypothesis]
    simp [ExtendedMantissa.ofMantissaAndAccuracy, ExtendedMantissa.shiftRightOne]

/-- A full mantissa is rounded to itself, also with zeros behind it. The shift to the target
exponent takes off just the zeros, so that no rounding takes place. -/
theorem roundWithAccuracy_of_full {mantissa : Nat} (full : mantissa.log2 = 52) (places : Nat)
    {exponent : Int} (reached : -1074 ≤ exponent) (sign : Sign) :
    roundWithAccuracy .binary64 sign (mantissa * 2 ^ places) (exponent - places) .exact =
      .finite sign mantissa exponent (pos_of_full full) := by
  have first : shiftToTargetExponent .binary64 (mantissa * 2 ^ places) (exponent - places) .exact =
      (ExtendedMantissa.ofMantissaAndAccuracy mantissa .exact, exponent) := by
    have amount : (exponent - (exponent - places)).toNat = places := by omega
    simp only [shiftToTargetExponent, targetExponent_of_full full places reached, shiftToExponent,
      amount, shiftRight_zeros]
    rw [Int.sub_add_cancel]
  have last : shiftToTargetExponent .binary64 mantissa exponent .exact =
      (ExtendedMantissa.ofMantissaAndAccuracy mantissa .exact, exponent) := by
    have aimed := targetExponent_of_full full 0 reached
    simp only [Nat.pow_zero, Nat.mul_one, Int.natCast_zero, Int.sub_zero] at aimed
    simp only [shiftToTargetExponent, aimed, shiftToExponent, Int.sub_self, Int.toNat_zero,
      Int.natCast_zero, Int.add_zero]
    rfl
  have rounded :
      (ExtendedMantissa.ofMantissaAndAccuracy mantissa .exact).roundedMantissa = mantissa := rfl
  have held : (ExtendedMantissa.ofMantissaAndAccuracy mantissa .exact).mantissa = mantissa := rfl
  simp only [roundWithAccuracy, first, rounded, last, held, (pos_of_full full).ne', ↓reduceDIte]

/-- A full mantissa with an exponent in range is unpacked as it was packed. Packing leaves out the
leading one and unpacking puts it back, since the biased exponent is neither zero nor the
greatest. -/
theorem unpack_pack_of_full {mantissa : Nat} (full : mantissa.log2 = 52) {exponent : Int}
    (reached : -1074 ≤ exponent) (inside : exponent ≤ 971) :
    (pack (.finite .positive mantissa exponent (pos_of_full full))).unpack =
      .finite .positive mantissa exponent (pos_of_full full) := by
  have bits : Format.binary64.mantissaBits = 53 := rfl
  have bias : Format.binary64.exponentBias = 1023 := rfl
  have between := (Nat.log2_eq_iff (pos_of_full full).ne').mp full
  have biased : (exponent + (1023 : Nat) + (52 : Nat)).toNat = (exponent + 1075).toNat := by omega
  have least : (BitVec.ofNat 11 (exponent + 1075).toNat).toNat = (exponent + 1075).toNat := by
    rw [BitVec.toNat_ofNat]
    omega
  have finite : BitVec.ofNat 11 (exponent + 1075).toNat ≠ -1#11 := ofNat_ne_neg_one (by omega)
  have normal : BitVec.ofNat 11 (exponent + 1075).toNat ≠ 0#11 := by
    intro nothing
    rw [nothing] at least
    simp at least
    omega
  have whole : (1#1 ++ BitVec.ofNat 52 mantissa).toNat = mantissa := by
    rw [BitVec.toNat_append, ← Nat.shiftLeft_add_eq_or_of_lt (BitVec.isLt _), BitVec.toNat_ofNat,
      Nat.shiftLeft_eq, BitVec.toNat_ofNat]
    omega
  simp only [Float.Model.unpack, Float.Model.pack, UInt64.toBitVec_ofBitVec, UnpackedFloat.pack,
    bits, bias, full, biased]
  rw [if_neg (by omega), if_pos trivial]
  simp only [UnpackedFloat.unpack, unpackMantissa_packComponents, unpackExponent_packComponents,
    unpackSign_packComponents, Sign.ofBitVec_toBitVec, finite, normal, ↓reduceIte, whole, least,
    bias]
  congr 1
  omega

/-- A number of 53 bits becomes a double as it is: its mantissa is filled up with zeros, and the
exponent goes down by as many places. Nothing is rounded, for there is room for all bits. -/
theorem unpack_ofUInt64 {word : UInt64} (inhabited : word.toNat ≠ 0)
    (narrow : word.toNat.log2 ≤ 52) :
    ∃ full : (word.toNat * 2 ^ (52 - word.toNat.log2)).log2 = 52,
      (Float.Model.ofUInt64 word).unpack =
        .finite .positive (word.toNat * 2 ^ (52 - word.toNat.log2)) (word.toNat.log2 - 52)
          (pos_of_full full) := by
  have full : (word.toNat * 2 ^ (52 - word.toNat.log2)).log2 = 52 := by
    rw [log2_mul_two_pow inhabited]
    omega
  use full
  have bits : Format.binary64.mantissaBits = 53 := rfl
  have least : Format.binary64.minExponent = -1074 := rfl
  have aimed : Format.binary64.targetExponent (totalExponent word.toNat 0) =
      word.toNat.log2 - 52 := by
    simp only [Format.targetExponent, totalExponent, bits, least]
    omega
  have above : compare (word.toNat : Int) 0 = .gt := Int.compare_eq_gt.mpr (by omega)
  have places : (0 - ((word.toNat.log2 : Int) - 52)).toNat = 52 - word.toNat.log2 := by omega
  have lowered : (0 : Int) - ((52 - word.toNat.log2 : Nat) : Int) = word.toNat.log2 - 52 := by omega
  have reached : -1074 ≤ (word.toNat.log2 : Int) - 52 := by omega
  have rounded := roundWithAccuracy_of_full full 0 reached .positive
  simp only [Nat.pow_zero, Nat.mul_one, Int.natCast_zero, Int.sub_zero] at rounded
  rw [← unpack_pack_of_full full reached (by omega), ← rounded]
  simp only [Float.Model.ofUInt64, UnpackedFloat.ofUInt64, UnpackedFloat.ofNat,
    UnpackedFloat.ofInt, UnpackedFloat.normalize, above, Int.toNat_natCast, UnpackedFloat.round,
    aimed, decreaseExponent, places, lowered, Nat.shiftLeft_eq]

end Graft.Double

namespace Graft.Chance

open Double

/-- The fraction of a word without any of the 53 upper bits is zero, as they are all that it is made
of. -/
theorem unpack_unitFraction_of_eq_zero {word : UInt64} (nothing : word >>> 11 = 0) :
    (unitFraction word).toModel.unpack = .zero .positive := by
  have product : (unitFraction word).toModel =
      Float.Model.ofUInt64 (word >>> 11) * Float.Model.ofBits 0x3ca0000000000000 := rfl
  rw [product, nothing]
  rfl

/-- The fraction of any other word has the mantissa of its 53 bits, with an exponent that puts all
of them behind the point. To divide by a power of two changes the exponent alone. -/
theorem unpack_unitFraction_of_ne_zero {word : UInt64} (something : word >>> 11 ≠ 0) :
    ∃ mantissa exponent inhabited, exponent ≤ -53 ∧
      (unitFraction word).toModel.unpack = .finite .positive mantissa exponent inhabited := by
  have product : (unitFraction word).toModel =
      Float.Model.ofUInt64 (word >>> 11) * Float.Model.ofBits 0x3ca0000000000000 := rfl
  have inhabited : (word >>> 11).toNat ≠ 0 := fun zero => something (UInt64.toNat_inj.mp zero)
  have short : (word >>> 11).toNat < 2 ^ 53 := by
    have fits := word.toNat_lt
    rw [UInt64.toNat_shiftRight, Nat.shiftRight_eq_div_pow]
    apply Nat.div_lt_of_lt_mul
    exact fits
  have narrow : (word >>> 11).toNat.log2 ≤ 52 := by
    have fits := (Nat.log2_lt inhabited).mpr short
    omega
  obtain ⟨full, unpacked⟩ := unpack_ofUInt64 inhabited narrow
  have scale : (Float.Model.ofBits 0x3ca0000000000000).unpack =
      .finite .positive (2 ^ 52) (-105) (Nat.two_pow_pos 52) := rfl
  have reached : -1074 ≤ ((word >>> 11).toNat.log2 : Int) - 105 := by omega
  have rounded := roundWithAccuracy_of_full full 52 reached .positive
  have exponents : ((word >>> 11).toNat.log2 : Int) - 52 + -105 =
      (word >>> 11).toNat.log2 - 105 - (52 : Nat) := by omega
  refine ⟨_, (word >>> 11).toNat.log2 - 105, pos_of_full full, by omega, ?_⟩
  rw [product, ← unpack_pack_of_full full reached (by omega), ← rounded, ← exponents]
  change (Float.Model.pack (Float.Model.UnpackedFloat.mul .binary64 _ _)).unpack = _
  rw [unpacked, scale]
  rfl

/-- A fraction is zero or has the mantissa of its 53 bits, with an exponent that puts all of them
behind the point. In either case it is made without rounding. -/
theorem unpack_unitFraction (word : UInt64) :
    (unitFraction word).toModel.unpack = .zero .positive ∨
      ∃ mantissa exponent inhabited, exponent ≤ -53 ∧
        (unitFraction word).toModel.unpack = .finite .positive mantissa exponent inhabited := by
  by_cases nothing : word >>> 11 = 0
  · exact .inl (unpack_unitFraction_of_eq_zero nothing)
  · exact .inr (unpack_unitFraction_of_ne_zero nothing)

/-- A fraction is below one. With 53 bits that all stand behind the point it cannot reach it. -/
theorem unitFraction_lt_one (word : UInt64) : unitFraction word < 1 := by
  have one : (1 : Float).toModel.unpack = .finite .positive (2 ^ 52) (-52) (Nat.two_pow_pos 52) :=
    rfl
  rw [lt_iff, one]
  rcases unpack_unitFraction word with zero | ⟨mantissa, exponent, inhabited, small, finite⟩
  · rw [zero]
    rfl
  · have less : compare exponent (-52) = .lt := Int.compare_eq_lt.mpr (by omega)
    rw [finite]
    simp [Float.Model.UnpackedFloat.compare, less]

/-- A fraction is at most one. Doubles below a number are at most that number, though this is no
matter of definition. -/
theorem unitFraction_le_one (word : UInt64) : unitFraction word ≤ 1 := by
  have below := lt_iff.mp (unitFraction_lt_one word)
  rw [le_iff, eq_of_beq below]
  rfl

end Graft.Chance
