import Mathlib

/-!
# Doubles without a sign

Weights are doubles that start at one and are divided by a positive number over
and over. What matters of them is their sign, and that they are numbers at all.
A quotient keeps the sign but may be rounded to zero, a sum with a positive
number is never rounded to zero. Both follow from the definitions of division,
addition and rounding themselves.

The only quotient of such numbers that is no number is that of two infinities.
-/

namespace Graft.Double

open Float.Model Float.Model.UnpackedFloat

/-- A number that is not below zero. Either zero is one, and so is infinity. -/
def NonNegative : UnpackedFloat → Prop
  | .infinity sign => sign = .positive
  | .notANumber => False
  | .zero _ => True
  | .finite sign _ _ _ => sign = .positive

/-- A number above zero, infinity among them. -/
def Positive : UnpackedFloat → Prop
  | .infinity sign => sign = .positive
  | .notANumber => False
  | .zero _ => False
  | .finite sign _ _ _ => sign = .positive

/-- A finite number whose mantissa and exponent leave it above zero when it is packed. -/
def Fits : UnpackedFloat → Prop
  | .finite _ mantissa exponent _ => mantissa < 9007199254740992 ∧ -1074 ≤ exponent
  | _ => True

/-! ## Packing -/

/-- Components without a sign, of a finite number, are those of a number not below zero. Exponent
and mantissa may both be zero, and zero is such a number. -/
theorem nonNegative_components (exponent : BitVec 11) (mantissa : BitVec 52)
    (finite : exponent ≠ -1#11) :
    NonNegative (UnpackedFloat.unpack .binary64
      (packComponents .binary64 .positive exponent mantissa)) := by
  simp only [UnpackedFloat.unpack, unpackMantissa_packComponents, unpackExponent_packComponents,
    unpackSign_packComponents, Sign.ofBitVec_toBitVec, finite, ↓reduceIte]
  split
  · split
    · trivial
    · rfl
  · rfl

/-- If one of the two is not zero, the number is above zero: it is normal if its exponent is not
zero, and subnormal if only its mantissa is not. -/
theorem positive_components (exponent : BitVec 11) (mantissa : BitVec 52)
    (finite : exponent ≠ -1#11) (something : exponent = 0#11 → mantissa ≠ 0#52) :
    Positive (UnpackedFloat.unpack .binary64
      (packComponents .binary64 .positive exponent mantissa)) := by
  simp only [UnpackedFloat.unpack, unpackMantissa_packComponents, unpackExponent_packComponents,
    unpackSign_packComponents, Sign.ofBitVec_toBitVec, finite, ↓reduceIte]
  split
  · next subnormal =>
    split
    · next nothing => exact absurd nothing (something subnormal)
    · rfl
  · rfl

/-- An exponent that is not too large for its bits is not the one of infinity, in which all eleven
of them are set. -/
theorem ofNat_ne_neg_one {exponent : Nat} (inside : exponent + 1 < 2048) :
    BitVec.ofNat 11 exponent ≠ -1#11 := by
  intro same
  have number := congrArg BitVec.toNat same
  simp at number
  omega

/-- A number that is not below zero is packed as one. It may become infinity, if its exponent is too
large, or zero, if it is small enough. -/
theorem nonNegative_pack {number : UnpackedFloat} (nonNegative : NonNegative number) :
    NonNegative (pack number).unpack := by
  cases number with
  | infinity sign =>
    obtain rfl : sign = .positive := nonNegative
    rfl
  | notANumber => cases nonNegative
  | zero sign => cases sign <;> trivial
  | finite sign mantissa exponent inhabited =>
    obtain rfl : sign = .positive := nonNegative
    simp only [Float.Model.unpack, Float.Model.pack, UInt64.toBitVec_ofBitVec, UnpackedFloat.pack]
    split
    · rfl
    · next inside =>
      split
      · exact nonNegative_components _ _ (ofNat_ne_neg_one (Nat.lt_of_not_le inside))
      · exact nonNegative_components _ _ (by decide)

/-- A number above zero that fits is packed as one: the exponent of a normal number and the
mantissa of a subnormal one are not cut down to nothing. -/
theorem positive_pack {number : UnpackedFloat} (positive : Positive number)
    (fits : Fits number) : Positive (pack number).unpack := by
  cases number with
  | infinity sign =>
    obtain rfl : sign = .positive := positive
    rfl
  | notANumber => cases positive
  | zero sign => cases positive
  | finite sign mantissa exponent inhabited =>
    obtain rfl : sign = .positive := positive
    obtain ⟨narrow, reached⟩ := fits
    have bits : Format.binary64.mantissaBits = 53 := rfl
    have bias : Format.binary64.exponentBias = 1023 := rfl
    simp only [Float.Model.unpack, Float.Model.pack, UInt64.toBitVec_ofBitVec, UnpackedFloat.pack,
      bits, bias]
    split
    · rfl
    · next inside =>
      have finite := Nat.lt_of_not_le inside
      split
      · refine positive_components _ _ (ofNat_ne_neg_one finite) fun subnormal => ?_
        have number := congrArg BitVec.toNat subnormal
        simp only [BitVec.toNat_ofNat] at number
        omega
      · next subnormal =>
        have short : mantissa.log2 < 53 := (Nat.log2_lt inhabited.ne').mpr narrow
        have shorter : mantissa < 4503599627370496 :=
          (Nat.log2_lt inhabited.ne').mp (show mantissa.log2 < 52 by omega)
        refine positive_components _ _ (by decide) fun _ nothing => ?_
        have number := congrArg BitVec.toNat nothing
        simp only [BitVec.toNat_ofNat] at number
        omega

/-! ## Rounding -/

/-- To shift a mantissa to the right by so many places is to divide it. What falls off is kept in
two bits beside the quotient, of which nothing is said here. -/
theorem shiftRight_mantissa (extended : ExtendedMantissa) (places : Nat) :
    (extended >>> places).mantissa = extended.mantissa / 2 ^ places := by
  induction places with
  | zero => exact (Nat.div_one _).symm
  | succ places inductionHypothesis =>
    have step : (extended >>> (places + 1)).mantissa = (extended >>> places).mantissa / 2 := rfl
    rw [step, inductionHypothesis, Nat.div_div_eq_div_mul, Nat.pow_succ]

/-- Rounding adds one at most and takes nothing away. Which of the two it does depends on what has
been shifted off, and for a half on whether the mantissa is even. -/
theorem roundedMantissa_between (extended : ExtendedMantissa) :
    extended.mantissa ≤ extended.roundedMantissa ∧
      extended.roundedMantissa ≤ extended.mantissa + 1 := by
  obtain ⟨mantissa, roundBit, stickyBit⟩ := extended
  have parity : mantissa % 2 < 2 := Nat.mod_lt _ (by decide)
  cases roundBit <;> cases stickyBit <;>
    simp only [ExtendedMantissa.roundedMantissa, ExtendedMantissa.accuracy,
      Accuracy.roundToNearestEven] <;> omega

/-- From an exponent in range, a mantissa is shifted to 53 bits if it has more, and not at
all if it has not. Something is left of it, and the exponent stays in range. -/
theorem shift_between {mantissa : Nat} {exponent : Int} (inhabited : 0 < mantissa)
    (reached : -1074 ≤ exponent) (accuracy : Accuracy) :
    let shifted := shiftToTargetExponent .binary64 mantissa exponent accuracy
    0 < shifted.1.mantissa ∧ shifted.1.mantissa < 2 ^ 53 ∧ -1074 ≤ shifted.2 := by
  have places : (Format.binary64.targetExponent (totalExponent mantissa exponent) -
      exponent).toNat = mantissa.log2 - 52 := by
    have bits : Format.binary64.mantissaBits = 53 := rfl
    have least : Format.binary64.minExponent = -1074 := rfl
    simp only [Format.targetExponent, totalExponent, bits, least]
    omega
  have start : (ExtendedMantissa.ofMantissaAndAccuracy mantissa accuracy).mantissa = mantissa := by
    cases accuracy with
    | exact => rfl
    | inexact order => cases order <;> rfl
  simp only [shiftToTargetExponent, shiftToExponent, places, shiftRight_mantissa, start]
  refine ⟨?_, ?_, by omega⟩
  · refine Nat.div_pos ?_ (Nat.two_pow_pos _)
    calc 2 ^ (mantissa.log2 - 52) ≤ 2 ^ mantissa.log2 :=
          Nat.pow_le_pow_right (by decide) (Nat.sub_le _ _)
      _ ≤ mantissa := Nat.log2_self_le inhabited.ne'
  · refine Nat.div_lt_of_lt_mul ?_
    calc mantissa < 2 ^ (mantissa.log2 + 1) := Nat.lt_log2_self
      _ ≤ 2 ^ (mantissa.log2 - 52 + 53) := Nat.pow_le_pow_right (by decide) (by omega)
      _ = 2 ^ (mantissa.log2 - 52) * 2 ^ 53 := Nat.pow_add _ _ _

/-- Whatever is rounded without a sign is not below zero. It may be zero, since nothing is asked of
the mantissa and the exponent. -/
theorem nonNegative_roundWithAccuracy (mantissa : Nat) (exponent : Int) (accuracy : Accuracy) :
    NonNegative (roundWithAccuracy .binary64 .positive mantissa exponent accuracy) := by
  simp only [roundWithAccuracy]
  split
  · trivial
  · rfl

/-- A positive mantissa with an exponent in range is rounded to a number above zero that
fits. It is shifted twice, and neither shift takes all of it away. -/
theorem positive_roundWithAccuracy {mantissa : Nat} {exponent : Int} (inhabited : 0 < mantissa)
    (reached : -1074 ≤ exponent) (accuracy : Accuracy) :
    Positive (roundWithAccuracy .binary64 .positive mantissa exponent accuracy) ∧
      Fits (roundWithAccuracy .binary64 .positive mantissa exponent accuracy) := by
  obtain ⟨firstInhabited, -, firstReached⟩ := shift_between inhabited reached accuracy
  simp only [roundWithAccuracy]
  generalize shiftToTargetExponent .binary64 mantissa exponent accuracy = first
    at firstInhabited firstReached
  have rounded : 0 < first.1.roundedMantissa :=
    Nat.lt_of_lt_of_le firstInhabited (roundedMantissa_between first.1).1
  obtain ⟨lastInhabited, lastNarrow, lastReached⟩ := shift_between rounded firstReached .exact
  split
  · next nothing => exact absurd nothing lastInhabited.ne'
  · exact ⟨rfl, lastNarrow, lastReached⟩

/-- The same where the exponent may first have to be lowered. It is lowered to the one that 53 bits
ask for, which is in range, and the mantissa is shifted to the left for it. -/
theorem positive_round {mantissa : Nat} {exponent : Int} (inhabited : 0 < mantissa)
    (reached : -1074 ≤ exponent) :
    Positive (round .binary64 .positive mantissa exponent) ∧
      Fits (round .binary64 .positive mantissa exponent) := by
  have least : -1074 ≤ Format.binary64.targetExponent (totalExponent mantissa exponent) :=
    Int.le_max_right _ _
  simp only [UnpackedFloat.round, decreaseExponent]
  refine positive_roundWithAccuracy ?_ (by omega) .exact
  rw [Nat.shiftLeft_eq]
  exact Nat.mul_pos inhabited (Nat.two_pow_pos _)

/-! ## Arithmetic -/

/-- What a double is unpacked to fits: there are 52 bits in it for a mantissa of which a normal
number leaves out the first, and no exponent below that of the subnormal numbers. -/
theorem fits_unpack (double : Float.Model) : Fits double.unpack := by
  have bias : Format.binary64.exponentBias = 1023 := rfl
  simp only [Float.Model.unpack, UnpackedFloat.unpack, bias]
  split
  · split <;> trivial
  · split
    · split
      · trivial
      · next subnormal _ =>
        refine ⟨Nat.lt_trans (BitVec.isLt _) (by decide), ?_⟩
        simp [subnormal]
    · next normal =>
      refine ⟨BitVec.isLt _, ?_⟩
      have inhabited : (@unpackExponent .binary64 double.toBits.toBitVec).toNat ≠ 0 := by
        intro nothing
        exact normal (BitVec.eq_of_toNat_eq nothing)
      omega

/-- A quotient of a number not below zero by a number above zero is not below zero, unless both are
infinite. Two finite numbers are divided and rounded without a sign, and the other cases are read
off the definition. -/
theorem nonNegative_div {left right : UnpackedFloat} (nonNegative : NonNegative left)
    (positive : Positive right) (finite : left.isInf = true → right.isInf = false) :
    NonNegative (UnpackedFloat.div .binary64 left right) := by
  cases left with
  | notANumber => cases nonNegative
  | infinity sign =>
    obtain rfl : sign = .positive := nonNegative
    cases right with
    | notANumber | zero => cases positive
    | infinity other => cases finite rfl
    | finite other mantissa exponent inhabited =>
      obtain rfl : other = .positive := positive
      rfl
  | zero sign =>
    cases right with
    | notANumber | zero => cases positive
    | infinity other | finite other mantissa exponent inhabited => trivial
  | finite sign mantissa exponent inhabited =>
    obtain rfl : sign = .positive := nonNegative
    cases right with
    | notANumber | zero => cases positive
    | infinity other => trivial
    | finite other divisor shift divides =>
      obtain rfl : other = .positive := positive
      exact nonNegative_roundWithAccuracy _ _ _

/-- A sum of a number above zero and a number not below zero is above zero and fits. Both are
brought to the lesser of their exponents, which is in range, so that rounding cannot take the sum
away. -/
theorem positive_add {left right : UnpackedFloat} (positive : Positive left) (leftFits : Fits left)
    (nonNegative : NonNegative right) (rightFits : Fits right) :
    Positive (UnpackedFloat.add .binary64 left right) ∧
      Fits (UnpackedFloat.add .binary64 left right) := by
  cases left with
  | notANumber | zero => cases positive
  | infinity sign =>
    obtain rfl : sign = .positive := positive
    cases right with
    | notANumber => cases nonNegative
    | infinity other =>
      obtain rfl : other = .positive := nonNegative
      exact ⟨rfl, trivial⟩
    | zero other | finite other mantissa exponent inhabited => exact ⟨rfl, trivial⟩
  | finite sign mantissa exponent inhabited =>
    obtain rfl : sign = .positive := positive
    cases right with
    | notANumber => cases nonNegative
    | infinity other =>
      obtain rfl : other = .positive := nonNegative
      exact ⟨rfl, trivial⟩
    | zero other => exact ⟨rfl, leftFits⟩
    | finite other addend shift addendInhabited =>
      obtain rfl : other = .positive := nonNegative
      have leftReached := leftFits.2
      have rightReached := rightFits.2
      simp only [UnpackedFloat.add, decreaseExponent, Sign.apply]
      generalize leftIs : mantissa <<< (exponent - min exponent shift).toNat = leftMantissa
      generalize addend <<< (shift - min exponent shift).toNat = rightMantissa
      have leftInhabited : 0 < leftMantissa := by
        rw [← leftIs, Nat.shiftLeft_eq]
        exact Nat.mul_pos inhabited (Nat.two_pow_pos _)
      have above : compare ((leftMantissa : Int) + rightMantissa) 0 = .gt :=
        Int.compare_eq_gt.mpr (by omega)
      simp only [UnpackedFloat.normalize, above]
      exact positive_round (by omega) (by omega)

/-! ## Doubles -/

/-- A double that is not below zero. -/
def IsNonNegative (double : Float) : Prop := NonNegative double.toModel.unpack

/-- A double above zero. -/
def IsPositive (double : Float) : Prop := Positive double.toModel.unpack

/-- Zero is not what a double above it is equal to. A total above zero is therefore not mistaken for
one without any weight. -/
theorem IsPositive.beq_zero {double : Float} (positive : IsPositive double) :
    (double == 0) = false := by
  have zero : (0 : Float).toModel.unpack = .zero .positive := rfl
  change (double.toModel.unpack.compare (0 : Float).toModel.unpack == some .eq) = false
  unfold IsPositive at positive
  rw [zero]
  cases unpacked : double.toModel.unpack with
  | infinity sign =>
    rw [unpacked] at positive
    obtain rfl : sign = .positive := positive
    rfl
  | notANumber | zero =>
    rw [unpacked] at positive
    cases positive
  | finite sign mantissa exponent inhabited =>
    rw [unpacked] at positive
    obtain rfl : sign = .positive := positive
    rfl

/-- A double that is a number and not at most zero is above it. What is no number is not at most
zero either, and has to be ruled out beforehand. -/
theorem isPositive_of_not_le_zero {double : Float} (number : double.isNaN = false)
    (above : ¬ double ≤ 0) : IsPositive double := by
  have zero : (0 : Float).toModel.unpack = .zero .positive := rfl
  have above : ¬ (double.toModel.unpack.compare (0 : Float).toModel.unpack).any (·.isLE) = true :=
    fun below => above (decide_eq_true (show double.toModel ≤ (0 : Float).toModel from below))
  change double.toModel.unpack.isNaN = false at number
  unfold IsPositive
  rw [zero] at above
  cases unpacked : double.toModel.unpack with
  | infinity sign =>
    rw [unpacked] at above
    cases sign with
    | positive => rfl
    | negative => exact absurd rfl above
  | notANumber =>
    rw [unpacked] at number
    cases number
  | zero sign =>
    rw [unpacked] at above
    exact absurd rfl above
  | finite sign mantissa exponent inhabited =>
    rw [unpacked] at above
    cases sign with
    | positive => rfl
    | negative => exact absurd rfl above

/-- A sum that starts above zero and goes on with numbers not below zero ends above zero. Every step
packs what has been added up, and what is above zero and fits is packed as a double above zero. -/
theorem IsPositive.foldl_add {start : Float} (positive : IsPositive start) (addends : List Float)
    (nonNegative : ∀ addend ∈ addends, IsNonNegative addend) :
    IsPositive (addends.foldl (· + ·) start) := by
  induction addends generalizing start with
  | nil => exact positive
  | cons addend rest inductionHypothesis =>
    obtain ⟨above, fits⟩ := positive_add positive (fits_unpack _)
      (nonNegative addend List.mem_cons_self) (fits_unpack _)
    have step : IsPositive (start + addend) := positive_pack above fits
    exact inductionHypothesis step fun other later =>
      nonNegative other (List.mem_cons_of_mem addend later)

/-- The quotient of a double not below zero by one above zero is not below zero, unless both
are infinite. If the divisor is infinite, the quotient is not. -/
theorem IsNonNegative.div {left right : Float} (nonNegative : IsNonNegative left)
    (positive : IsPositive right) (finite : right.isInf = true → left.isInf = false) :
    IsNonNegative (left / right) ∧ (right.isInf = true → (left / right).isInf = false) := by
  change right.toModel.unpack.isInf = true → left.toModel.unpack.isInf = false at finite
  constructor
  · refine nonNegative_pack (nonNegative_div nonNegative positive fun infinite => ?_)
    cases divisor : right.toModel.unpack.isInf with
    | false => rfl
    | true => rw [finite divisor] at infinite; cases infinite
  · intro infinite
    change right.toModel.unpack.isInf = true at infinite
    change (Float.Model.pack (UnpackedFloat.div .binary64 left.toModel.unpack
      right.toModel.unpack)).unpack.isInf = false
    have dividend := finite infinite
    unfold IsNonNegative at nonNegative
    generalize left.toModel.unpack = numerator at nonNegative dividend
    generalize right.toModel.unpack = denominator at infinite
    cases denominator with
    | notANumber | zero | finite => cases infinite
    | infinity sign =>
      have vanishing : ∃ result,
          UnpackedFloat.div .binary64 numerator (.infinity sign) = .zero result := by
        cases numerator with
        | infinity other => cases dividend
        | notANumber => cases nonNegative
        | zero other | finite other mantissa exponent inhabited => exact ⟨_, rfl⟩
      obtain ⟨result, nothing⟩ := vanishing
      rw [nothing]
      cases result <;> rfl

/-- One double is at most another one if it compares as less or equal. The unpacked numbers are
compared, and with what is no number nothing compares. -/
theorem le_iff {left right : Float} : left ≤ right ↔
    (left.toModel.unpack.compare right.toModel.unpack).any (·.isLE) = true :=
  decide_eq_true_iff

/-- One double is less than another one if it compares as less. To compare as nothing at all is not
to be less. -/
theorem lt_iff {left right : Float} : left < right ↔
    (left.toModel.unpack.compare right.toModel.unpack == some .lt) = true :=
  decide_eq_true_iff

/-- A double that is equal to zero is at most zero. It may be a zero of either sign, as the
comparison does not look at it. -/
theorem le_zero_of_beq {double : Float} (equal : (double == 0) = true) : double ≤ 0 := by
  change (double.toModel.unpack.compare (0 : Float).toModel.unpack == some .eq) = true at equal
  rw [le_iff, eq_of_beq equal]
  rfl

/-- A double that is zero, of either sign. -/
def IsZero (double : Float) : Prop := ∃ sign, double.toModel.unpack = .zero sign

/-- A double that is neither below zero nor above it is zero. It is a number, since it compares with
zero at all, and each other kind of number has a sign by which one comparison fails. -/
theorem isZero_of_between {double : Float} (below : double ≤ 0) (above : 0 ≤ double) :
    IsZero double := by
  have zero : (0 : Float).toModel.unpack = .zero .positive := rfl
  rw [le_iff, zero] at below above
  unfold IsZero
  cases unpacked : double.toModel.unpack with
  | zero sign => exact ⟨sign, rfl⟩
  | notANumber =>
    rw [unpacked] at below
    cases below
  | infinity sign | finite sign mantissa exponent inhabited =>
    rw [unpacked] at below above
    cases sign with
    | positive => cases below
    | negative => cases above

/-- A sum of zeros is zero. Its sign depends on theirs, and is left open. -/
theorem IsZero.add {left right : Float} (first : IsZero left) (second : IsZero right) :
    IsZero (left + right) := by
  obtain ⟨sign, first⟩ := first
  obtain ⟨other, second⟩ := second
  unfold IsZero
  change ∃ sign, (Float.Model.pack (UnpackedFloat.add .binary64 left.toModel.unpack
    right.toModel.unpack)).unpack = .zero sign
  rw [first, second]
  cases sign <;> cases other <;> exact ⟨_, rfl⟩

/-- Zero is not above zero, whatever its sign: the two zeros compare as equal. -/
theorem IsZero.not_pos {double : Float} (zero : IsZero double) : ¬ 0 < double := by
  obtain ⟨sign, unpacked⟩ := zero
  have own : (0 : Float).toModel.unpack = .zero .positive := rfl
  rw [lt_iff, own, unpacked]
  cases sign <;> exact Bool.false_ne_true

/-- A double that zero is less than is above zero. The comparison rules out what is no number,
either zero, and the negative sign. -/
theorem isPositive_of_pos {double : Float} (above : 0 < double) : IsPositive double := by
  have zero : (0 : Float).toModel.unpack = .zero .positive := rfl
  rw [lt_iff, zero] at above
  unfold IsPositive
  cases unpacked : double.toModel.unpack with
  | notANumber | zero sign =>
    rw [unpacked] at above
    cases above
  | infinity sign | finite sign mantissa exponent inhabited =>
    rw [unpacked] at above
    cases sign with
    | positive => rfl
    | negative => cases above

/-- What is not below zero is not less than zero. The converse fails for what is no number, as that
is neither. -/
theorem not_lt_zero {double : Float} (nonNegative : 0 ≤ double) : ¬ double < 0 := by
  have zero : (0 : Float).toModel.unpack = .zero .positive := rfl
  rw [le_iff, zero] at nonNegative
  rw [lt_iff, zero]
  intro below
  cases unpacked : double.toModel.unpack with
  | notANumber | zero sign => rw [unpacked] at below; cases below
  | infinity sign | finite sign mantissa exponent inhabited =>
    rw [unpacked] at nonNegative below
    cases sign with
    | positive => cases below
    | negative => cases nonNegative

/-- What is not below zero is a number, since what is no number compares with nothing. -/
theorem isNaN_of_nonneg {double : Float} (nonNegative : 0 ≤ double) : double.isNaN = false := by
  have zero : (0 : Float).toModel.unpack = .zero .positive := rfl
  rw [le_iff, zero] at nonNegative
  change double.toModel.unpack.isNaN = false
  cases unpacked : double.toModel.unpack with
  | notANumber => rw [unpacked] at nonNegative; cases nonNegative
  | infinity sign | zero sign | finite sign mantissa exponent inhabited => rfl

/-! ## Shares of a total -/

/-- Zero, of either sign, is less than a double above it, however small or large that is. -/
theorem IsZero.lt_of_isPositive {left right : Float} (zero : IsZero left)
    (positive : IsPositive right) : left < right := by
  obtain ⟨sign, zero⟩ := zero
  unfold IsPositive at positive
  rw [lt_iff, zero]
  cases unpacked : right.toModel.unpack with
  | notANumber | zero other =>
    rw [unpacked] at positive
    cases positive
  | infinity other | finite other mantissa exponent inhabited =>
    rw [unpacked] at positive
    obtain rfl : other = .positive := positive
    rfl

/-- Zero and a double above it make one above it. Nothing is rounded, as the sum is the double
itself. -/
theorem IsPositive.zero_add {double : Float} (positive : IsPositive double) :
    IsPositive (0 + double) := by
  have kept : UnpackedFloat.add .binary64 (.zero .positive) double.toModel.unpack =
      double.toModel.unpack := by
    unfold IsPositive at positive
    cases unpacked : double.toModel.unpack with
    | notANumber | zero sign =>
      rw [unpacked] at positive
      cases positive
    | infinity sign | finite sign mantissa exponent inhabited => rfl
  change Positive
    (pack (UnpackedFloat.add .binary64 (.zero .positive) double.toModel.unpack)).unpack
  rw [kept]
  exact positive_pack positive (fits_unpack _)

/-- A share of zero in a finite total is zero. A target at the very start of a total thereby lies
before all weights that are above zero. -/
theorem isZero_zero_mul {total : Float} (positive : IsPositive total)
    (finite : total.isInf = false) : IsZero (0 * total) := by
  unfold IsPositive at positive
  change total.toModel.unpack.isInf = false at finite
  change ∃ sign,
    (pack (UnpackedFloat.mul .binary64 (.zero .positive) total.toModel.unpack)).unpack = .zero sign
  cases unpacked : total.toModel.unpack with
  | notANumber | zero sign =>
    rw [unpacked] at positive
    cases positive
  | infinity sign =>
    rw [unpacked] at finite
    cases finite
  | finite sign mantissa exponent inhabited =>
    rw [unpacked] at positive
    obtain rfl : sign = .positive := positive
    have share : UnpackedFloat.mul .binary64 (.zero .positive)
        (.finite .positive mantissa exponent inhabited) = .zero .positive := rfl
    rw [share]
    exact ⟨.positive, rfl⟩

/-- A share of zero in an infinite total is no number, and less than nothing. As a target it passes
by every band. -/
theorem not_zero_mul_lt {total : Float} (infinite : total.isInf = true) (double : Float) :
    ¬ 0 * total < double := by
  change total.toModel.unpack.isInf = true at infinite
  have undefined : (0 * total).toModel.unpack = .notANumber := by
    change (pack (UnpackedFloat.mul .binary64 (.zero .positive) total.toModel.unpack)).unpack = _
    cases unpacked : total.toModel.unpack with
    | infinity sign =>
      have share :
          UnpackedFloat.mul .binary64 (.zero .positive) (.infinity sign) = .notANumber := rfl
      rw [share]
      rfl
    | notANumber | zero sign | finite sign mantissa exponent inhabited =>
      rw [unpacked] at infinite
      cases infinite
  rw [lt_iff, undefined]
  exact Bool.false_ne_true

/-! ## Comparisons from either side -/

/-- Two numbers that change places compare the other way around, and if they do not compare they do
not do so from the other side. Each pair of kinds is its own case of the definition. -/
theorem compare_swap (left right : UnpackedFloat) :
    right.compare left = (left.compare right).map Ordering.swap := by
  cases left with
  | notANumber => cases right <;> rfl
  | infinity sign =>
    cases right with
    | notANumber => cases sign <;> rfl
    | infinity other | zero other | finite other => cases sign <;> cases other <;> rfl
  | zero sign =>
    cases right with
    | notANumber => rfl
    | infinity other | zero other | finite other => cases other <;> rfl
  | finite sign mantissa exponent inhabited =>
    cases right with
    | notANumber => cases sign <;> rfl
    | infinity other | zero other => cases sign <;> cases other <;> rfl
    | finite other otherMantissa otherExponent otherInhabited =>
      have swapped : ((compare exponent otherExponent).then (compare mantissa otherMantissa)).swap =
          (compare otherExponent exponent).then (compare otherMantissa mantissa) := by
        rw [Ordering.swap_then, Int.compare_swap, Nat.compare_swap]
      cases sign <;> cases other <;>
        simp only [UnpackedFloat.compare, Option.map_some, ← swapped, Ordering.swap]

/-- What is less than a double is not also at least it. Both are read off one comparison, which has
one result. -/
theorem not_le_of_lt {left right : Float} (less : left < right) : ¬ right ≤ left := by
  have compared := eq_of_beq (lt_iff.mp less)
  rw [le_iff, compare_swap, compared]
  exact Bool.false_ne_true

/-- Of two doubles that compare at all the one that is not at least the other is less. Without the
condition both may fail, as they do where one of them is no number. -/
theorem lt_of_not_le {left right : Float}
    (comparable : (left.toModel.unpack.compare right.toModel.unpack).isSome)
    (notLess : ¬ right ≤ left) : left < right := by
  obtain ⟨ordering, compared⟩ := Option.isSome_iff_exists.mp comparable
  rw [le_iff, compare_swap, compared] at notLess
  rw [lt_iff, compared]
  cases ordering with
  | lt => rfl
  | eq | gt => exact absurd rfl notLess

end Graft.Double
