/-!
# Byte strings

Literals of a grammar, texts of a tree and whole samples are finite strings of
octets. They are lists, so that concatenation, length and position are those of
lists. Numbers enter a byte string in little-endian order at a fixed width.
-/

namespace Graft

/-- A finite string of octets. -/
abbrev Bytes := List UInt8

namespace Bytes

/-- The UTF-8 octets of a text. -/
def ofString (text : String) : Bytes :=
  text.toByteArray.data.toList

/-- Write a number at a fixed width, least significant octet first. What does
    not fit the width is cut off. -/
def littleEndian : (width : Nat) → (value : Nat) → Bytes
  | 0, _ => []
  | width + 1, value => UInt8.ofNat value :: littleEndian width (value / 256)

/-- Read a number written least significant octet first. -/
def number : Bytes → Nat
  | [] => 0
  | octet :: rest => octet.toNat + 256 * number rest

/-- The number of different byte strings of a width. -/
def countOfWidth : (width : Nat) → Nat
  | 0 => 1
  | width + 1 => 256 * countOfWidth width

/-- A fixed width is kept whatever the number. -/
@[simp] theorem length_littleEndian (width value : Nat) :
    (littleEndian width value).length = width := by
  induction width generalizing value with
  | zero => rfl
  | succ width shorter => simp [littleEndian, shorter]

/-- A number that fits the width is read back. A larger one would lose what goes beyond the
width. -/
theorem number_littleEndian (width value : Nat) (fits : value < countOfWidth width) :
    number (littleEndian width value) = value := by
  induction width generalizing value with
  | zero => simp_all [littleEndian, number, countOfWidth]
  | succ width shorter =>
    have quotient : value / 256 < countOfWidth width := by
      rw [countOfWidth] at fits
      omega
    simp only [littleEndian, number, shorter _ quotient, UInt8.toNat_ofNat']
    omega

/-- The number held fits the width, whatever the octets are. -/
theorem number_lt (octets : Bytes) : number octets < countOfWidth octets.length := by
  induction octets with
  | nil => exact Nat.zero_lt_one
  | cons octet rest shorter =>
    have small := octet.toNat_lt
    simp only [number, List.length_cons, countOfWidth]
    omega

/-- Each byte string of a width is the written form of the number it holds. So no two of them hold
the same number. -/
theorem littleEndian_number (octets : Bytes) :
    littleEndian octets.length (number octets) = octets := by
  induction octets with
  | nil => rfl
  | cons octet rest shorter =>
    have small := octet.toNat_lt
    have first : UInt8.ofNat (octet.toNat + 256 * number rest) = octet := by
      apply UInt8.toNat_inj.mp
      simp only [UInt8.toNat_ofNat']
      omega
    have remaining : (octet.toNat + 256 * number rest) / 256 = number rest := by omega
    simp only [List.length_cons, number, littleEndian, first, remaining, shorter]

/-- One hexadecimal digit, lower case. -/
def hexDigit (value : Nat) : Char :=
  if value < 10 then Char.ofNat (48 + value) else Char.ofNat (87 + value)

/-- Two lower-case hexadecimal digits for every octet. -/
def hex (octets : Bytes) : String :=
  String.ofList (octets.flatMap fun octet =>
    [hexDigit (octet.toNat / 16), hexDigit (octet.toNat % 16)])

end Bytes

end Graft
