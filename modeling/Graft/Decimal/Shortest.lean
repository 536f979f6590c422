/-!
# The shortest decimal of a double

A finite double is an integer times a power of two, and every real number closer
to it than to its neighbours reads back as the same double. Among the decimals
that read back, the shortest is taken, and of two equally short ones the nearer;
where both are equally near, the larger. The search goes over decimal grids from
coarse to fine and looks only at the two grid points around the value, in exact
arithmetic: if any point of a grid reads back, so does one of these two.
-/

namespace Graft.Decimal

/-- A natural number of tenths, hundredths and so on: digits times ten to the
    exponent. -/
structure Scaled where
  digits : Nat
  exponent : Int
deriving DecidableEq, Repr

/-- The magnitude of a finite double as an integer times a power of two, with the
    range around it that reads back as the same double. All numbers are in
    quarters of the last place. -/
structure Magnitude where
  /-- Four times the integer. -/
  quarters : Nat
  /-- The lower end of the range. -/
  lowest : Nat
  /-- The upper end of the range. -/
  highest : Nat
  /-- The power of two of one quarter. -/
  exponent : Int
  /-- Whether the ends themselves read back. -/
  endsIncluded : Bool
deriving DecidableEq, Repr

/-- A power with an exponent that is zero where it would be negative. -/
def power (base : Nat) (exponent : Int) : Nat :=
  Nat.pow base exponent.toNat

/-- How many fractions a double has: 52 bits of them. -/
def fractions : Nat := 4503599627370496

/-- How many exponents a double has: 11 bits of them. -/
def exponents : Nat := 2048

namespace Magnitude

/-- The magnitude held in the lower 63 bits of a finite double. Below a power of
    two the neighbours are half as far away as above it. -/
def ofBits (bits : Nat) : Magnitude :=
  let fraction := bits % fractions
  let field := bits / fractions % exponents
  let integer := if field = 0 then fraction else fraction + fractions
  let narrow := fraction = 0 ∧ 1 < field
  { quarters := 4 * integer
    lowest := if narrow then 4 * integer - 1 else 4 * integer - 2
    highest := 4 * integer + 2
    exponent := (max field 1 : Nat) - 1077
    endsIncluded := integer % 2 = 0 }

/-- The factor that turns quarters into the numerator over a grid of tens. -/
def numeratorFactor (magnitude : Magnitude) (grid : Int) : Nat :=
  power 2 magnitude.exponent * power 10 (-grid)

/-- The denominator over a grid of tens. -/
def denominator (magnitude : Magnitude) (grid : Int) : Nat :=
  power 2 (-magnitude.exponent) * power 10 grid

/-- Whether a point of the grid reads back. -/
def readsBack (magnitude : Magnitude) (grid : Int) (point : Nat) : Bool :=
  let factor := magnitude.numeratorFactor grid
  let place := point * magnitude.denominator grid
  if magnitude.endsIncluded then
    magnitude.lowest * factor ≤ place ∧ place ≤ magnitude.highest * factor
  else
    magnitude.lowest * factor < place ∧ place < magnitude.highest * factor

/-- The better of the two grid points around the value, if either reads back. -/
def pointOn? (magnitude : Magnitude) (grid : Int) : Option Nat :=
  let numerator := magnitude.quarters * magnitude.numeratorFactor grid
  let denominator := magnitude.denominator grid
  let under := numerator / denominator
  let remainder := numerator % denominator
  match magnitude.readsBack grid under, magnitude.readsBack grid (under + 1) with
  | true, true => some (if 2 * remainder < denominator then under else under + 1)
  | true, false => some under
  | false, true => some (under + 1)
  | false, false => none

/-- The least power of ten above the value, searched upwards from an exponent
    that is not above it. -/
def leadingExponent (magnitude : Magnitude) : (steps : Nat) → (grid : Int) → Int
  | 0, grid => grid
  | steps + 1, grid =>
    if magnitude.quarters * magnitude.numeratorFactor grid < magnitude.denominator grid then grid
    else magnitude.leadingExponent steps (grid + 1)

/-- Strip trailing zeros from at most so many places. -/
def strip : (places : Nat) → Scaled → Scaled
  | 0, scaled => scaled
  | places + 1, scaled =>
    if scaled.digits ≠ 0 ∧ scaled.digits % 10 = 0 then
      strip places ⟨scaled.digits / 10, scaled.exponent + 1⟩
    else scaled

/-- The shortest decimal of a positive magnitude. Seventeen digits always
    suffice. -/
def shortest (magnitude : Magnitude) : Scaled :=
  let bits := (magnitude.quarters.log2 : Int) + magnitude.exponent
  let leading := magnitude.leadingExponent 4 (bits * 30103 / 100000 - 1)
  let found := (List.range 17).findSome? fun (digits : Nat) =>
    (magnitude.pointOn? (leading - (digits + 1))).map fun point =>
      strip 18 ⟨point, leading - (digits + 1)⟩
  found.getD ⟨0, 0⟩

end Magnitude

end Graft.Decimal
