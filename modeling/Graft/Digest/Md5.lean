import Graft.Bytes

/-!
# MD5

The digest of a byte string in 128 bits. The octets are padded to blocks of 512
bits that end in their count of bits; each block is mixed into four words in 64
steps.
-/

namespace Graft.Md5

/-- The four words of a digest. -/
structure Digest where
  first : UInt32
  second : UInt32
  third : UInt32
  fourth : UInt32
deriving DecidableEq, Repr

/-- The state before the first block. -/
def initial : Digest :=
  ⟨0x67452301, 0xefcdab89, 0x98badcfe, 0x10325476⟩

/-- The constants of the steps: the integer parts of 2³² times the absolute sines
    of 1 to 64. -/
def sines : List UInt32 :=
  [0xd76aa478, 0xe8c7b756, 0x242070db, 0xc1bdceee, 0xf57c0faf, 0x4787c62a, 0xa8304613, 0xfd469501,
    0x698098d8, 0x8b44f7af, 0xffff5bb1, 0x895cd7be, 0x6b901122, 0xfd987193, 0xa679438e, 0x49b40821,
    0xf61e2562, 0xc040b340, 0x265e5a51, 0xe9b6c7aa, 0xd62f105d, 0x02441453, 0xd8a1e681, 0xe7d3fbc8,
    0x21e1cde6, 0xc33707d6, 0xf4d50d87, 0x455a14ed, 0xa9e3e905, 0xfcefa3f8, 0x676f02d9, 0x8d2a4c8a,
    0xfffa3942, 0x8771f681, 0x6d9d6122, 0xfde5380c, 0xa4beea44, 0x4bdecfa9, 0xf6bb4b60, 0xbebfbc70,
    0x289b7ec6, 0xeaa127fa, 0xd4ef3085, 0x04881d05, 0xd9d4d039, 0xe6db99e5, 0x1fa27cf8, 0xc4ac5665,
    0xf4292244, 0x432aff97, 0xab9423a7, 0xfc93a039, 0x655b59c3, 0x8f0ccc92, 0xffeff47d, 0x85845dd1,
    0x6fa87e4f, 0xfe2ce6e0, 0xa3014314, 0x4e0811a1, 0xf7537e82, 0xbd3af235, 0x2ad7d2bb, 0xeb86d391]

/-- How one of the four rounds mixes: a function of three words, the rotations of
    its steps in turn, and which word of the block a step takes. -/
structure Round where
  mix : UInt32 → UInt32 → UInt32 → UInt32
  rotations : List UInt32
  place : Nat → Nat

/-- The four rounds. -/
def rounds : List Round :=
  [⟨fun second third fourth => (second &&& third) ||| (~~~second &&& fourth),
      [7, 12, 17, 22], fun step => step % 16⟩,
    ⟨fun second third fourth => (second &&& fourth) ||| (third &&& ~~~fourth),
      [5, 9, 14, 20], fun step => (5 * step + 1) % 16⟩,
    ⟨fun second third fourth => second ^^^ third ^^^ fourth,
      [4, 11, 16, 23], fun step => (3 * step + 5) % 16⟩,
    ⟨fun second third fourth => third ^^^ (second ||| ~~~fourth),
      [6, 10, 15, 21], fun step => (7 * step) % 16⟩]

/-- One step of a round. -/
def step (round : Round) (block : Array UInt32) (state : Digest) (entry : UInt32 × Nat) : Digest :=
  let (sine, number) := entry
  let sum := state.first + round.mix state.second state.third state.fourth + sine +
    block.getD (round.place number) 0
  let amount := round.rotations.getD (number % 4) 1
  let rotated := (sum <<< amount) ||| (sum >>> (32 - amount))
  ⟨state.fourth, state.second + rotated, state.second, state.third⟩

/-- The sines with the numbers of their steps, sixteen to a round. -/
def schedule : List (Round × List (UInt32 × Nat)) :=
  rounds.zipIdx.map fun (round, number) =>
    (round, (sines.zipIdx.drop (16 * number)).take 16)

/-- Mix a block into a state. -/
def absorb (state : Digest) (block : Array UInt32) : Digest :=
  let mixed := schedule.foldl
    (fun state (round, steps) => steps.foldl (step round block) state) state
  ⟨state.first + mixed.first, state.second + mixed.second, state.third + mixed.third,
    state.fourth + mixed.fourth⟩

/-- The octets followed by a one bit, as few zero bits as complete the last block,
    and the count of bits. -/
def padded (octets : Bytes) : Bytes :=
  let length := octets.length
  octets ++ 0x80 :: (List.replicate ((119 - length % 64) % 64) 0 ++
    Bytes.littleEndian 8 (8 * length))

/-- The words of padded octets. A remainder of fewer than four octets is none. -/
def words : Bytes → List UInt32
  | a :: b :: c :: d :: rest => UInt32.ofNat (Bytes.number [a, b, c, d]) :: words rest
  | _ => []

/-- Mix words into a state, sixteen at a time, for so many blocks. -/
def absorbAll (state : Digest) (words : List UInt32) : (blocks : Nat) → Digest
  | 0 => state
  | blocks + 1 => absorbAll (absorb state (words.take 16).toArray) (words.drop 16) blocks

/-- The digest of a byte string. -/
def digest (octets : Bytes) : Digest :=
  let words := words (padded octets)
  absorbAll initial words (words.length / 16)

/-- The octets of a digest. -/
def Digest.octets (digest : Digest) : Bytes :=
  [digest.first, digest.second, digest.third, digest.fourth].flatMap fun word =>
    Bytes.littleEndian 4 word.toNat

/-- A digest in lower-case hexadecimal digits. -/
def Digest.hex (digest : Digest) : String :=
  digest.octets.hex

end Graft.Md5
