import Graft.Random.Source

/-!
# SplitMix

A counter advanced by a fixed odd step, whose every value is mixed into one
64-bit word. A 32-bit word is the low half of a 64-bit one.
-/

namespace Graft.Random

/-- The counter of a SplitMix generator. -/
structure SplitMix where
  counter : UInt64
deriving DecidableEq, Repr

namespace SplitMix

/-- The finalizer applied to a counter value. -/
def mix (value : UInt64) : UInt64 :=
  let value := (value ^^^ (value >>> 30)) * 0xbf58476d1ce4e5b9
  let value := (value ^^^ (value >>> 27)) * 0x94d049bb133111eb
  value ^^^ (value >>> 31)

/-- The next word, with the counter it was made from. -/
def next (generator : SplitMix) : UInt64 × SplitMix :=
  let counter := generator.counter + 0x9e3779b97f4a7c15
  (mix counter, ⟨counter⟩)

instance : Source SplitMix where
  next64 := next
  next32 generator := let (word, generator) := next generator; (word.toUInt32, generator)

end SplitMix

end Graft.Random
