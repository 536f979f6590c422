import Graft.Toml.Lexeme
import Graft.Toml.Value

/-!
# Numbers

Digits may be separated by single underscores. Decimal integers have no leading
zeros; other bases are marked by a letter after a zero and have no sign. A number
with a fraction or an exponent is a double, rounded to the nearest. Integers
outside 64 bits and doubles too large to be finite are refused; a negative double
too large to be finite is negative infinity.
-/

namespace Graft.Toml

/-- Further digits, each with at most one underscore before it. -/
def moreDigits (base : Nat) : List Char → List Char × List Char
  | '_' :: next :: rest =>
    if isDigitOf base next then
      let (digits, rest) := moreDigits base rest
      (next :: digits, rest)
    else ([], '_' :: next :: rest)
  | next :: rest =>
    if isDigitOf base next then
      let (digits, rest) := moreDigits base rest
      (next :: digits, rest)
    else ([], next :: rest)
  | [] => ([], [])

/-- One digit or more. -/
def readDigits (base : Nat) : Reader (List Char)
  | first :: rest =>
    if isDigitOf base first then
      let (digits, rest) := moreDigits base rest
      some (first :: digits, rest)
    else none
  | [] => none

/-- Digits of a decimal integer, which starts with a zero only if it is zero. -/
def readWhole : Reader (List Char)
  | '0' :: rest => some (['0'], rest)
  | input => readDigits 10 input

/-- A sign, positive where none is written. -/
def readSign : List Char → Bool × List Char
  | '-' :: rest => (true, rest)
  | '+' :: rest => (false, rest)
  | input => (false, input)

/-- A number with the sign that was written. -/
def signed (negative : Bool) (value : Nat) : Int :=
  if negative then -(value : Int) else value

/-- An integer of 64 bits. -/
def integer? (value : Int) : Option Value :=
  if -9223372036854775808 ≤ value && value ≤ 9223372036854775807 then some (.integer value)
  else none

/-- The double nearest to digits times a power of ten. Exponents beyond the range
    of doubles are settled without computing the power. -/
def nearestDouble (digits : List Char) (exponent : Int) : Float :=
  let mantissa := numberOf 10 digits
  let magnitude := ((Nat.toDigits 10 mantissa).length : Int) + exponent
  if mantissa = 0 then 0
  else if 310 < magnitude then 1.0 / 0.0
  else if magnitude < -400 then 0
  else Float.ofScientific mantissa (exponent < 0) exponent.natAbs

/-- The exponent of a double, its letter already read. -/
def readExponent : Reader Int := fun input => do
  let (negative, rest) := readSign input
  let (digits, rest) ← readDigits 10 rest
  return (signed negative (numberOf 10 digits), rest)

/-- An exponent if there is one, and otherwise zero. -/
def readOptionalExponent : Reader Int
  | 'e' :: rest => readExponent rest
  | 'E' :: rest => readExponent rest
  | input => some (0, input)

/-- A double with its sign, unless it is too large to be finite. -/
def double? (negative : Bool) (digits : List Char) (exponent : Int) : Option Value :=
  let magnitude := nearestDouble digits exponent
  if negative then some (.float (-magnitude))
  else if magnitude.isFinite then some (.float magnitude)
  else none

/-- What follows the sign of a number. -/
def readUnsigned (negative : Bool) : Reader Value
  | 'i' :: 'n' :: 'f' :: rest =>
    some (.float (if negative then -(1.0 / 0.0) else 1.0 / 0.0), rest)
  | 'n' :: 'a' :: 'n' :: rest => some (.float (0.0 / 0.0), rest)
  | input => do
    let (whole, rest) ← readWhole input
    match rest with
    | '.' :: rest =>
      let (fraction, rest) ← readDigits 10 rest
      let (exponent, rest) ← readOptionalExponent rest
      return (← double? negative (whole ++ fraction) (exponent - fraction.length), rest)
    | 'e' :: _ | 'E' :: _ =>
      let (exponent, rest) ← readOptionalExponent rest
      return (← double? negative whole exponent, rest)
    | _ => return (← integer? (signed negative (numberOf 10 whole)), rest)

/-- An integer whose base has been read. -/
def readBased (base : Nat) : Reader Value := fun input => do
  let (digits, rest) ← readDigits base input
  return (← integer? (numberOf base digits), rest)

/-- Read a number. -/
def readNumber : Reader Value
  | '0' :: 'x' :: rest => readBased 16 rest
  | '0' :: 'o' :: rest => readBased 8 rest
  | '0' :: 'b' :: rest => readBased 2 rest
  | input =>
    let (negative, rest) := readSign input
    readUnsigned negative rest

end Graft.Toml
