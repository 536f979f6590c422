import Graft.Decimal.Shortest

/-!
# Doubles in messages

A double is written positionally with the fewest digits that read back, never
with an exponent. An integral value has no decimal point.
-/

namespace Graft.Decimal

/-- Digits without an exponent; a fraction has a digit before its point. -/
def Scaled.positional (scaled : Scaled) : String :=
  let digits := toString scaled.digits
  if 0 ≤ scaled.exponent then
    digits ++ String.ofList (List.replicate scaled.exponent.toNat '0')
  else
    let places := (-scaled.exponent).toNat
    let characters := digits.toList
    if places < characters.length then
      let whole := characters.length - places
      String.ofList (characters.take whole ++ '.' :: characters.drop whole)
    else
      "0." ++ String.ofList (List.replicate (places - characters.length) '0' ++ characters)

/-- The bit of a double that makes it negative. -/
def signBit : Nat := 9223372036854775808

/-- A double as messages show it. -/
def text (value : Float) : String :=
  if value.isNaN then "NaN"
  else
    let bits := value.toBits.toNat
    let sign := if bits < signBit then "" else "-"
    let magnitude := bits % signBit
    if value.isFinite then
      if magnitude = 0 then sign ++ "0"
      else sign ++ (Magnitude.ofBits magnitude).shortest.positional
    else sign ++ "inf"

/-- A double as messages show it, an integral one marked by a zero after the
    point. -/
def markedText (value : Float) : String :=
  let plain := text value
  if value.isFinite && !plain.toList.contains '.' then plain ++ ".0" else plain

end Graft.Decimal
