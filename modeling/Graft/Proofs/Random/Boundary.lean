import Graft.Proofs.Random.Fraction

/-!
# The fractions next to zero and one

Fractions come in steps of two to the minus 53. The greatest one is a step below one, and no double
lies between the two: a probability below one is at most the greatest fraction. The least one is
zero, that of every word without any of the 53 upper bits.

So a probability below one has a fraction above it unless it is the greatest fraction itself. A
probability of zero has no fraction below it, but it is reached by one.
-/

namespace Graft.Double

open Float.Model

/-- A finite number whose mantissa is full, unless its exponent is the least one. -/
def Full : UnpackedFloat → Prop
  | .finite _ mantissa exponent _ => 4503599627370496 ≤ mantissa ∨ exponent = -1074
  | _ => True

/-- A leading one is worth as much as all the bits behind it can be, and one more. No place is taken
twice when the two are put together, so their worths add up. -/
theorem toNat_one_append (bits : BitVec 52) :
    (1#1 ++ bits).toNat = 4503599627370496 + bits.toNat := by
  rw [BitVec.toNat_append, ← Nat.shiftLeft_add_eq_or_of_lt bits.isLt]
  rfl

/-- What a double is unpacked to is full. Unpacking puts the leading one of a normal number in front
of its bits; a subnormal number goes without and has the least exponent. -/
theorem full_unpack (double : Float.Model) : Full double.unpack := by
  have bias : Format.binary64.exponentBias = 1023 := rfl
  simp only [Float.Model.unpack, UnpackedFloat.unpack, bias]
  split
  · split <;> trivial
  · split
    · split
      · trivial
      · next subnormal _ =>
        right
        simp [subnormal]
    · left
      rw [toNat_one_append]
      exact Nat.le_add_right _ _

/-- A double that is at least zero is a positive number or zero. The comparison is false of what is
no number, and a zero passes it whichever its sign. -/
theorem cases_of_nonNegative {double : Float} (nonNegative : 0 ≤ double) :
    (∃ sign, double.toModel.unpack = .zero sign) ∨
      double.toModel.unpack = .infinity .positive ∨
        ∃ mantissa exponent inhabited,
          double.toModel.unpack = .finite .positive mantissa exponent inhabited := by
  have zero : (0 : Float).toModel.unpack = .zero .positive := rfl
  rw [le_iff, zero] at nonNegative
  cases unpacked : double.toModel.unpack with
  | notANumber =>
    rw [unpacked] at nonNegative
    cases nonNegative
  | zero sign => exact .inl ⟨sign, rfl⟩
  | infinity sign =>
    rw [unpacked] at nonNegative
    cases sign with
    | positive => exact .inr (.inl rfl)
    | negative => cases nonNegative
  | finite sign mantissa exponent inhabited =>
    rw [unpacked] at nonNegative
    cases sign with
    | positive => exact .inr (.inr ⟨mantissa, exponent, inhabited, rfl⟩)
    | negative => cases nonNegative

end Graft.Double

namespace Graft.Chance

open Float.Model Double

/-- The greatest fraction: one less two to the minus 53. -/
def greatestFraction : Float := Float.ofBits 0x3fefffffffffffff

/-- The greatest fraction is that of the greatest word, whose 53 upper bits are all ones. -/
theorem unitFraction_greatest : unitFraction 18446744073709551615 = greatestFraction := rfl

/-- All bits of the mantissa of the greatest fraction are ones. There are 53 of them, and the
exponent puts them all behind the point. -/
theorem unpack_greatestFraction : greatestFraction.toModel.unpack =
    .finite .positive 9007199254740991 (-53) (by decide) := rfl

/-- A positive number whose bits all lie behind the point is at most the greatest fraction. With a
smaller exponent it is below, whatever its bits are; with the same one no 53 bits are worth more
than all ones. -/
theorem le_greatestFraction_of_unpack {double : Float} {mantissa : Nat} {exponent : Int}
    {inhabited : 0 < mantissa} (small : exponent ≤ -53)
    (unpacked : double.toModel.unpack = .finite .positive mantissa exponent inhabited) :
    double ≤ greatestFraction := by
  have fits := fits_unpack double.toModel
  rw [unpacked] at fits
  rw [le_iff, unpacked, unpack_greatestFraction]
  rcases Int.lt_or_eq_of_le small with less | rfl
  · simp [UnpackedFloat.compare, Int.compare_eq_lt.mpr less]
  · have most : mantissa ≤ 9007199254740991 := Nat.le_of_lt_succ fits.1
    have compared : (compare mantissa 9007199254740991).isLE = true := Nat.isLE_compare.mpr most
    simpa [UnpackedFloat.compare] using compared

/-- Zero is at most the greatest fraction. Its sign does not matter, as comparisons do not look at
it. -/
theorem zero_le_greatestFraction {double : Float} {sign : UnpackedFloat.Sign}
    (unpacked : double.toModel.unpack = .zero sign) : double ≤ greatestFraction := by
  rw [le_iff, unpacked]
  rfl

/-- No fraction is above the greatest one, as a fraction that is not zero has all its bits behind
the point. -/
theorem unitFraction_le_greatest (word : UInt64) : unitFraction word ≤ greatestFraction := by
  rcases unpack_unitFraction word with zero | ⟨mantissa, exponent, inhabited, small, finite⟩
  · exact zero_le_greatestFraction zero
  · exact le_greatestFraction_of_unpack small finite

variable {probability : Float}

/-- No double lies between the greatest fraction and one. The mantissa of a double is full, so an
exponent that reached further would make it one at least. -/
theorem le_greatestFraction (nonNegative : 0 ≤ probability) (below : probability < 1) :
    probability ≤ greatestFraction := by
  have one : (1 : Float).toModel.unpack =
      .finite .positive 4503599627370496 (-52) (by decide) := rfl
  rcases cases_of_nonNegative nonNegative with
    ⟨sign, zero⟩ | infinite | ⟨mantissa, exponent, inhabited, finite⟩
  · exact zero_le_greatestFraction zero
  · rw [lt_iff, infinite] at below
    cases below
  · have full := full_unpack probability.toModel
    rw [finite] at full
    rw [lt_iff, finite, one] at below
    have less : (compare exponent (-52)).then (compare mantissa 4503599627370496) = .lt :=
      Option.some.inj (eq_of_beq below)
    have small : exponent ≤ -53 := by
      rcases Ordering.then_eq_lt.mp less with lower | ⟨same, short⟩
      · have lower := Int.compare_eq_lt.mp lower
        omega
      · have same := Int.compare_eq_eq.mp same
        have short := Nat.compare_eq_lt.mp short
        rcases full with full | least <;> omega
    exact le_greatestFraction_of_unpack small finite

/-- Whoever is equal to the greatest fraction is made of the same bits. Only the two zeros are equal
without being the same. -/
theorem unpack_eq_of_beq (same : (probability == greatestFraction) = true) :
    probability.toModel.unpack = greatestFraction.toModel.unpack := by
  change (probability.toModel.unpack.compare greatestFraction.toModel.unpack == some .eq) = true
    at same
  have compared := eq_of_beq same
  rw [unpack_greatestFraction] at compared ⊢
  cases unpacked : probability.toModel.unpack with
  | notANumber | zero sign =>
    rw [unpacked] at compared
    cases compared
  | infinity sign =>
    rw [unpacked] at compared
    cases sign <;> cases compared
  | finite sign mantissa exponent inhabited =>
    rw [unpacked] at compared
    cases sign with
    | negative => cases compared
    | positive =>
      have both := Ordering.then_eq_eq.mp (Option.some.inj compared)
      obtain rfl := Int.compare_eq_eq.mp both.1
      obtain rfl := Nat.compare_eq_eq.mp both.2
      rfl

/-- A probability below one that is not the greatest fraction is below it: it is at most the
greatest fraction, and of three outcomes of a comparison two are excluded. -/
theorem lt_greatestFraction (nonNegative : 0 ≤ probability) (below : probability < 1)
    (different : (probability == greatestFraction) = false) : probability < greatestFraction := by
  have most := le_iff.mp (le_greatestFraction nonNegative below)
  change (probability.toModel.unpack.compare greatestFraction.toModel.unpack == some .eq) = false
    at different
  rw [lt_iff]
  cases compared : probability.toModel.unpack.compare greatestFraction.toModel.unpack with
  | none =>
    rw [compared] at most
    cases most
  | some ordering =>
    rw [compared] at most different
    cases ordering with
    | lt => rfl
    | eq => cases different
    | gt => cases most

/-- A probability below one has a fraction above it exactly if it is not the greatest fraction. The
greatest fraction has none above it, and it is itself above every other such probability. -/
theorem exists_lt_unitFraction_iff (nonNegative : 0 ≤ probability) (below : probability < 1) :
    (∃ word, probability < unitFraction word) ↔ (probability == greatestFraction) = false := by
  constructor
  · rintro ⟨word, above⟩
    rw [Bool.eq_false_iff]
    intro same
    rw [lt_iff, unpack_eq_of_beq same, ← lt_iff] at above
    exact not_le_of_lt above (unitFraction_le_greatest word)
  · intro different
    use 18446744073709551615
    rw [unitFraction_greatest]
    exact lt_greatestFraction nonNegative below different

/-- A fraction and a probability compare. Neither of them fails to be a number, so to be above is
not to be at most, which would not hold of all doubles. -/
theorem lt_unitFraction_iff (nonNegative : 0 ≤ probability) (word : UInt64) :
    probability < unitFraction word ↔ ¬ unitFraction word ≤ probability := by
  constructor
  · exact not_le_of_lt
  · refine lt_of_not_le ?_
    rcases cases_of_nonNegative nonNegative with
      ⟨sign, own⟩ | own | ⟨mantissa, exponent, inhabited, own⟩ <;>
      rcases unpack_unitFraction word with zero | ⟨_, _, _, _, finite⟩ <;>
      simp [*, UnpackedFloat.compare]

/-- A probability of zero is a zero, of either sign. The test for equality does not tell the signs
apart, so nothing more can be said. -/
theorem unpack_of_beq_zero (zero : (probability == 0) = true) :
    ∃ sign, probability.toModel.unpack = .zero sign := by
  have own : (0 : Float).toModel.unpack = .zero .positive := rfl
  change (probability.toModel.unpack.compare (0 : Float).toModel.unpack == some .eq) = true at zero
  have compared := eq_of_beq zero
  rw [own] at compared
  cases unpacked : probability.toModel.unpack with
  | zero sign => exact ⟨sign, rfl⟩
  | notANumber =>
    rw [unpacked] at compared
    cases compared
  | infinity sign | finite sign mantissa exponent inhabited =>
    rw [unpacked] at compared
    cases sign <;> cases compared

/-- A probability of zero is below the fraction of a word with any of the 53 upper bits. The 11 bits
below them are dropped when the fraction is made. -/
theorem lt_unitFraction_iff_of_zero (zero : (probability == 0) = true) (word : UInt64) :
    probability < unitFraction word ↔ word >>> 11 ≠ 0 := by
  obtain ⟨sign, own⟩ := unpack_of_beq_zero zero
  rw [lt_iff, own]
  constructor
  · intro below nothing
    rw [unpack_unitFraction_of_eq_zero nothing] at below
    cases below
  · intro something
    obtain ⟨mantissa, exponent, inhabited, -, finite⟩ := unpack_unitFraction_of_ne_zero something
    rw [finite]
    rfl

/-- The fraction of a word is at most a probability of zero if it has none of the 53 upper bits.
Then it is zero as well, and a comparison that lets equals pass holds. -/
theorem unitFraction_le_iff_of_zero (zero : (probability == 0) = true) (word : UInt64) :
    unitFraction word ≤ probability ↔ word >>> 11 = 0 := by
  obtain ⟨sign, own⟩ := unpack_of_beq_zero zero
  rw [le_iff, own]
  constructor
  · intro most
    by_contra something
    obtain ⟨mantissa, exponent, inhabited, -, finite⟩ := unpack_unitFraction_of_ne_zero something
    rw [finite] at most
    cases most
  · intro nothing
    rw [unpack_unitFraction_of_eq_zero nothing]
    rfl

/-- No fraction is below a probability of zero, since none is negative. This is why a strict
comparison means never where one that lets equals pass does not. -/
theorem not_unitFraction_lt_of_zero (zero : (probability == 0) = true) (word : UInt64) :
    ¬ unitFraction word < probability := by
  obtain ⟨sign, own⟩ := unpack_of_beq_zero zero
  rw [lt_iff, own]
  rcases unpack_unitFraction word with nothing | ⟨mantissa, exponent, inhabited, -, finite⟩
  · rw [nothing]
    nofun
  · rw [finite]
    nofun

end Graft.Chance
