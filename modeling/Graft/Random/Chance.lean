import Graft.Fault
import Graft.Random.Source

/-!
# Random choices

A choice is a computation that takes words from a source. It either yields a
value or a fault, and in both cases the source it has reached, so that the words
it consumed are known even when it is abandoned.

A fraction has 53 random bits and lies in `[0, 1)`. A choice below a bound
multiplies a word by the bound and keeps the upper half of the product; a second
word decides whether a carry out of the lower half was lost. The words have as few
bits as the bound allows, 32 or 64.
-/

namespace Graft

open Graft.Random

/-- A computation on a random source. -/
abbrev Chance (σ α : Type) := EStateM Fault σ α

namespace Chance

variable {σ : Type} [Source σ]

/-- The next 64-bit word. -/
def word : Chance σ UInt64 := fun source =>
  let (word, source) := Source.next64 source
  .ok word source

/-- The next 32-bit word. -/
def halfWord : Chance σ UInt32 := fun source =>
  let (word, source) := Source.next32 source
  .ok word source

/-- The upper 53 bits of a word as a multiple of two to the minus 53. -/
def unitFraction (word : UInt64) : Float :=
  (word >>> 11).toFloat * Float.ofBits 0x3ca0000000000000

/-- A fraction in `[0, 1)`. -/
def fraction : Chance σ Float := do
  return unitFraction (← word)

/-- The number of words of 32 bits. -/
def halfWords : Nat := 4294967296

/-- The number of words of 64 bits. -/
def wholeWords : Nat := 18446744073709551616

/-- The lower half of a product, the half that is one of so many words. -/
def lowHalf (words product : Nat) : Nat := product % words

/-- The upper half of a product, above the half that is one of so many words. -/
def highHalf (words product : Nat) : Nat := product / words

/-- A number below a bound, from draws of one of so many words. The upper half of a word times
    the bound is below the bound. Where the lower half comes close to the number of words, a
    further product decides whether it carries into the upper one. -/
def scaled (words : Nat) (draw : Chance σ Nat) (bound : Nat) : Chance σ Nat := do
  let product := (← draw) * bound
  if words - bound < lowHalf words product then
    let further := (← draw) * bound
    if words ≤ lowHalf words product + highHalf words further then
      return highHalf words product + 1
    else
      return highHalf words product
  else
    return highHalf words product

/-- The next 32-bit word as a number. -/
def halfNumber : Chance σ Nat := do
  return (← halfWord).toNat

/-- The next 64-bit word as a number. -/
def wholeNumber : Chance σ Nat := do
  return (← word).toNat

/-- A number below a bound. Words of 32 bits are drawn for a bound that is one itself, and words
    of 64 bits for a greater one. Below zero there is no number, and to ask for one is a fault
    before a word is drawn. -/
def below (bound : Nat) : Chance σ Nat := do
  if bound = 0 then throw .emptyRange
  if bound < halfWords then scaled halfWords halfNumber bound
  else scaled wholeWords wholeNumber bound

/-- What a word leaves over when it is divided by a modulus. To divide by zero is a
    fault, which comes after the word is drawn. -/
def remainder (modulus : Nat) : Chance σ Nat := do
  let drawn ← wholeNumber
  if modulus = 0 then throw .emptyRange
  return drawn % modulus

/-- A place in a list of the given length. An empty list has only place zero, and
    no word is drawn for it. -/
def position (length : Nat) : Chance σ Nat :=
  if length = 0 then pure 0 else below length

end Chance

end Graft
