import ShaderBytecode.Bytes.LittleEndian

set_option autoImplicit false

/-! # The compression function

One block of 64 bytes is worked into a state of four words in 64 steps. The steps form four passes of
sixteen. Each pass has a mixing function, an order in which it visits the sixteen words of the block,
and four rotation amounts that it cycles through; each step has a constant of its own.

The four words change places after every step, so that all steps read the same. -/

namespace ShaderBytecode

/-- The state that blocks are worked into. -/
structure DigestState where
  a : UInt32
  b : UInt32
  c : UInt32
  d : UInt32
  deriving DecidableEq, Repr

namespace DigestState

/-- The state before the first block. -/
def initial : DigestState := ⟨0x67452301, 0xefcdab89, 0x98badcfe, 0x10325476⟩

/-- The state's bytes. -/
def toBytes (s : DigestState) : List UInt8 := LittleEndian.ofWords [s.a, s.b, s.c, s.d]

end DigestState

namespace Digest

/-! ## Mixing functions -/

/-- `c` where `b` has ones, `d` where it has zeros. -/
def choose (b c d : UInt32) : UInt32 := (b &&& (c ^^^ d)) ^^^ d

/-- `b` where `d` has ones, `c` where it has zeros. -/
def chooseByLast (b c d : UInt32) : UInt32 := choose d b c

def parity (b c d : UInt32) : UInt32 := b ^^^ c ^^^ d

/-- `c`, flipped where `b` has ones or `d` has zeros. -/
def orNot (b c d : UInt32) : UInt32 := c ^^^ (b ||| ~~~d)

/-! ## Steps -/

/-- What tells one step from another. -/
structure Step where
  mix : UInt32 → UInt32 → UInt32 → UInt32
  /-- The number of the word that is added. -/
  word : Nat
  constant : UInt32
  rotation : UInt32

/-- The constants of the steps. -/
def constants : List UInt32 :=
   [0xd76aa478, 0xe8c7b756, 0x242070db, 0xc1bdceee,
    0xf57c0faf, 0x4787c62a, 0xa8304613, 0xfd469501,
    0x698098d8, 0x8b44f7af, 0xffff5bb1, 0x895cd7be,
    0x6b901122, 0xfd987193, 0xa679438e, 0x49b40821,
    0xf61e2562, 0xc040b340, 0x265e5a51, 0xe9b6c7aa,
    0xd62f105d, 0x02441453, 0xd8a1e681, 0xe7d3fbc8,
    0x21e1cde6, 0xc33707d6, 0xf4d50d87, 0x455a14ed,
    0xa9e3e905, 0xfcefa3f8, 0x676f02d9, 0x8d2a4c8a,
    0xfffa3942, 0x8771f681, 0x6d9d6122, 0xfde5380c,
    0xa4beea44, 0x4bdecfa9, 0xf6bb4b60, 0xbebfbc70,
    0x289b7ec6, 0xeaa127fa, 0xd4ef3085, 0x04881d05,
    0xd9d4d039, 0xe6db99e5, 0x1fa27cf8, 0xc4ac5665,
    0xf4292244, 0x432aff97, 0xab9423a7, 0xfc93a039,
    0x655b59c3, 0x8f0ccc92, 0xffeff47d, 0x85845dd1,
    0x6fa87e4f, 0xfe2ce6e0, 0xa3014314, 0x4e0811a1,
    0xf7537e82, 0xbd3af235, 0x2ad7d2bb, 0xeb86d391]

/-- The mixing function, word and rotation of step `i`, by its pass `i / 16`. -/
def step (i : Nat) (constant : UInt32) : Step :=
  let cycle (rotations : List UInt32) := rotations.getD (i % 4) 0
  match i / 16 with
  | 0 => ⟨choose, i % 16, constant, cycle [7, 12, 17, 22]⟩
  | 1 => ⟨chooseByLast, (5 * i + 1) % 16, constant, cycle [5, 9, 14, 20]⟩
  | 2 => ⟨parity, (3 * i + 5) % 16, constant, cycle [4, 11, 16, 23]⟩
  | _ => ⟨orNot, 7 * i % 16, constant, cycle [6, 10, 15, 21]⟩

/-- All steps in order. -/
def steps : List Step := (List.range 64).zipWith step constants

/-- Rotate to the left; the amount lies between 1 and 31. -/
def rotateLeft (x amount : UInt32) : UInt32 := (x <<< amount) ||| (x >>> (32 - amount))

end Digest

namespace DigestState

/-- Perform one step with the words of a block. -/
def apply (words : List UInt32) (s : DigestState) (step : Digest.Step) : DigestState :=
  let sum := s.a + step.mix s.b s.c s.d + step.constant + words.getD step.word 0
  ⟨s.d, s.b + Digest.rotateLeft sum step.rotation, s.b, s.c⟩

/-- Add two states word by word. -/
def add (s t : DigestState) : DigestState := ⟨s.a + t.a, s.b + t.b, s.c + t.c, s.d + t.d⟩

/-- Work one block of 64 bytes into the state. -/
def compress (s : DigestState) (block : List UInt8) : DigestState :=
  s.add (Digest.steps.foldl (apply (LittleEndian.toWords block)) s)

end DigestState

end ShaderBytecode
