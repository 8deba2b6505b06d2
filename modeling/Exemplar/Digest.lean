import Exemplar.Text.Shown

/-!
# The MD5 digest

Cache files are named by a digest of the server they belong to, so that
any address gives a plain file name. The digest is MD5: the message is
padded to blocks of sixteen words, each block stirs a state of four words
in sixty-four steps, and the last state is the digest. Nothing secret
depends on it.
-/

namespace Exemplar.Digest

/-- The state: four words. -/
structure State where
  a : UInt32
  b : UInt32
  c : UInt32
  d : UInt32
  deriving DecidableEq, Repr

/-- The state before the first block. -/
def State.first : State := ⟨0x67452301, 0xefcdab89, 0x98badcfe, 0x10325476⟩

/-- The constants of the steps: the first thirty-two bits after the point
of the sines of one to sixty-four. -/
def sines : List UInt32 := [
  0xd76aa478, 0xe8c7b756, 0x242070db, 0xc1bdceee, 0xf57c0faf, 0x4787c62a, 0xa8304613, 0xfd469501,
  0x698098d8, 0x8b44f7af, 0xffff5bb1, 0x895cd7be, 0x6b901122, 0xfd987193, 0xa679438e, 0x49b40821,
  0xf61e2562, 0xc040b340, 0x265e5a51, 0xe9b6c7aa, 0xd62f105d, 0x02441453, 0xd8a1e681, 0xe7d3fbc8,
  0x21e1cde6, 0xc33707d6, 0xf4d50d87, 0x455a14ed, 0xa9e3e905, 0xfcefa3f8, 0x676f02d9, 0x8d2a4c8a,
  0xfffa3942, 0x8771f681, 0x6d9d6122, 0xfde5380c, 0xa4beea44, 0x4bdecfa9, 0xf6bb4b60, 0xbebfbc70,
  0x289b7ec6, 0xeaa127fa, 0xd4ef3085, 0x04881d05, 0xd9d4d039, 0xe6db99e5, 0x1fa27cf8, 0xc4ac5665,
  0xf4292244, 0x432aff97, 0xab9423a7, 0xfc93a039, 0x655b59c3, 0x8f0ccc92, 0xffeff47d, 0x85845dd1,
  0x6fa87e4f, 0xfe2ce6e0, 0xa3014314, 0x4e0811a1, 0xf7537e82, 0xbd3af235, 0x2ad7d2bb, 0xeb86d391]

/-- By how much a step rotates: each round goes through four amounts. -/
def rotations : List (List UInt32) := [
  [7, 12, 17, 22], [5, 9, 14, 20], [4, 11, 16, 23], [6, 10, 15, 21]]

/-- The amount of a step. -/
def rotation (step : Nat) : UInt32 := ((rotations.getD (step / 16) []).getD (step % 4) 0)

/-- A word rotated to the left. -/
def rotateLeft (x : UInt32) (n : UInt32) : UInt32 := (x <<< n) ||| (x >>> (32 - n))

/-- How a step mixes three words, and which word of the block it takes. -/
def mix (s : State) (step : Nat) : UInt32 × Nat :=
  match step / 16 with
  | 0 => ((s.b &&& s.c) ||| (~~~s.b &&& s.d), step)
  | 1 => ((s.d &&& s.b) ||| (~~~s.d &&& s.c), (5 * step + 1) % 16)
  | 2 => (s.b ^^^ s.c ^^^ s.d, (3 * step + 5) % 16)
  | _ => (s.c ^^^ (s.b ||| ~~~s.d), (7 * step) % 16)

/-- One step on a block. -/
def stir (block : List UInt32) (s : State) (step : Nat) : State :=
  let (mixed, word) := mix s step
  let sum := s.a + mixed + sines.getD step 0 + block.getD word 0
  ⟨s.d, s.b + rotateLeft sum (rotation step), s.b, s.c⟩

/-- All steps on a block, added to the state before it. -/
def absorb (s : State) (block : List UInt32) : State :=
  let t := (List.range 64).foldl (stir block) s
  ⟨s.a + t.a, s.b + t.b, s.c + t.c, s.d + t.d⟩

/-- The bytes of a number, the lowest first. -/
def lowFirst (count n : Nat) : List Nat :=
  (List.range count).map fun i => n / Nat.pow 256 i % 256

/-- A message padded to whole blocks: a single bit, zeros, and the length
of the message in bits. -/
def pad (bytes : List Nat) : List Nat :=
  let zeros := (119 - bytes.length % 64) % 64
  bytes ++ 0x80 :: List.replicate zeros 0 ++ lowFirst 8 (8 * bytes.length)

/-- The words of some bytes, four bytes each, the lowest first. -/
def words : List Nat → List UInt32
  | a :: b :: c :: d :: rest =>
    UInt32.ofNat (a + 256 * (b + 256 * (c + 256 * d))) :: words rest
  | _ => []

/-- The state after a message. -/
def digest (bytes : List Nat) : State :=
  let padded := words (pad bytes)
  let blocks := (List.range (padded.length / 16)).map fun i => (padded.drop (16 * i)).take 16
  blocks.foldl absorb State.first

/-- **The digest of a text**, in hexadecimal digits. -/
def ofText (s : String) : String :=
  let t := digest (s.toUTF8.toList.map (·.toNat))
  String.ofList ([t.a, t.b, t.c, t.d].flatMap fun w =>
    (lowFirst 4 w.toNat).flatMap (Text.hex 2))

end Exemplar.Digest
