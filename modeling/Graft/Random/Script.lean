import Graft.Random.ChaCha
import Graft.Random.SplitMix

/-!
# Scripted sources

A scripted source replays given words and then continues with a generator. It
counts its draws, so that two runs can be compared by how much they consumed. A
scripted word answers either width; the shorter one is its low half.
-/

namespace Graft.Random

/-- The generators a scripted source can continue with. -/
inductive Generator where
  | splitMix (state : SplitMix)
  | chaCha (state : ChaCha)
deriving DecidableEq, Repr

namespace Generator

/-- The next 32-bit word of whichever generator it is. -/
def next32 : Generator → UInt32 × Generator
  | .splitMix state => let (word, state) := Source.next32 state; (word, .splitMix state)
  | .chaCha state => let (word, state) := Source.next32 state; (word, .chaCha state)

/-- The next 64-bit word of whichever generator it is. -/
def next64 : Generator → UInt64 × Generator
  | .splitMix state => let (word, state) := Source.next64 state; (word, .splitMix state)
  | .chaCha state => let (word, state) := Source.next64 state; (word, .chaCha state)

instance : Source Generator where
  next32 := next32
  next64 := next64

end Generator

/-- Words to replay, the generator after them and the draws made so far. -/
structure Script where
  words : List UInt64
  generator : Generator
  draws : Nat := 0
deriving DecidableEq, Repr

namespace Script

/-- The next 32-bit word: half of a scripted word, or a word of the generator. -/
def next32 (script : Script) : UInt32 × Script :=
  match script.words with
  | word :: words => (word.toUInt32, { script with words, draws := script.draws + 1 })
  | [] =>
    let (word, generator) := script.generator.next32
    (word, { script with generator, draws := script.draws + 1 })

/-- The next 64-bit word: a scripted word, or a word of the generator. -/
def next64 (script : Script) : UInt64 × Script :=
  match script.words with
  | word :: words => (word, { script with words, draws := script.draws + 1 })
  | [] =>
    let (word, generator) := script.generator.next64
    (word, { script with generator, draws := script.draws + 1 })

instance : Source Script where
  next32 := next32
  next64 := next64

end Script

end Graft.Random
