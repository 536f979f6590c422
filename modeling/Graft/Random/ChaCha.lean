import Graft.Random.Source

/-!
# ChaCha with eight rounds

The keystream of a 256-bit key, read as 32-bit words in block order. A 64-bit
word takes two of them, low half first, also across the end of a block. Only the
key and the 64-bit block counter vary; the two nonce words are zero.
-/

namespace Graft.Random

/-- One block of the cipher. -/
abbrev ChaChaBlock := Vector UInt32 16

namespace ChaChaBlock

/-- Rotate a word to the left. The amount is between 1 and 31. -/
def rotateLeft (word amount : UInt32) : UInt32 :=
  (word <<< amount) ||| (word >>> (32 - amount))

/-- Mix four words of a block. -/
def quarterRound (block : ChaChaBlock) (a b c d : Fin 16) : ChaChaBlock :=
  let first := block[a] + block[b]
  let fourth := rotateLeft (block[d] ^^^ first) 16
  let third := block[c] + fourth
  let second := rotateLeft (block[b] ^^^ third) 12
  let first := first + second
  let fourth := rotateLeft (fourth ^^^ first) 8
  let third := third + fourth
  let second := rotateLeft (second ^^^ third) 7
  (((block.set a first).set b second).set c third).set d fourth

/-- One round over the columns and one over the diagonals. -/
def doubleRound (block : ChaChaBlock) : ChaChaBlock :=
  let block := quarterRound block 0 4 8 12
  let block := quarterRound block 1 5 9 13
  let block := quarterRound block 2 6 10 14
  let block := quarterRound block 3 7 11 15
  let block := quarterRound block 0 5 10 15
  let block := quarterRound block 1 6 11 12
  let block := quarterRound block 2 7 8 13
  quarterRound block 3 4 9 14

/-- Eight rounds, with the input added to their result. -/
def keystream (block : ChaChaBlock) : ChaChaBlock :=
  let mixed := doubleRound (doubleRound (doubleRound (doubleRound block)))
  mixed.zipWith (· + ·) block

end ChaChaBlock

/-- A position in a keystream. -/
structure ChaCha where
  /-- The key, word by word. -/
  key : Vector UInt32 8
  /-- The block that is made next. -/
  counter : UInt64
  /-- What is left of the block made last. -/
  pending : List UInt32
deriving DecidableEq, Repr

namespace ChaCha

/-- The input block of a key and a counter. -/
def inputBlock (key : Vector UInt32 8) (counter : UInt64) : ChaChaBlock :=
  #v[0x61707865, 0x3320646e, 0x79622d32, 0x6b206574,
    key[0], key[1], key[2], key[3], key[4], key[5], key[6], key[7],
    counter.toUInt32, (counter >>> 32).toUInt32, 0, 0]

/-- The next word of the keystream. -/
def next32 (stream : ChaCha) : UInt32 × ChaCha :=
  match stream.pending with
  | word :: pending => (word, { stream with pending })
  | [] =>
    let block := (inputBlock stream.key stream.counter).keystream
    (block[0], { stream with counter := stream.counter + 1, pending := block.toList.tail })

/-- Two words of the keystream as one, low half first. -/
def next64 (stream : ChaCha) : UInt64 × ChaCha :=
  let (low, stream) := stream.next32
  let (high, stream) := stream.next32
  (high.toUInt64 <<< 32 ||| low.toUInt64, stream)

instance : Source ChaCha where
  next32 := next32
  next64 := next64

/-- One step of the congruential sequence that spreads a seed over a key. -/
def spread (state : UInt64) : UInt64 :=
  state * 6364136223846793005 + 11634580027462260723

/-- The key word that a state of that sequence stands for: its upper bits folded
    and then rotated by its uppermost five. -/
def keyWord (state : UInt64) : UInt32 :=
  let folded := (((state >>> 18) ^^^ state) >>> 27).toUInt32
  let amount := (state >>> 59).toUInt32
  (folded >>> amount) ||| (folded <<< ((32 - amount) % 32))

/-- The stream of a 64-bit seed, at its start. -/
def ofSeed (seed : UInt64) : ChaCha :=
  let first := spread seed
  let second := spread first
  let third := spread second
  let fourth := spread third
  let fifth := spread fourth
  let sixth := spread fifth
  let seventh := spread sixth
  let eighth := spread seventh
  { key := #v[keyWord first, keyWord second, keyWord third, keyWord fourth,
      keyWord fifth, keyWord sixth, keyWord seventh, keyWord eighth]
    counter := 0
    pending := [] }

end ChaCha

end Graft.Random
