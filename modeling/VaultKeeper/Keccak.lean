import VaultKeeper.Bytes

/-! # Keccak-256

The 256-bit hash with the padding byte `0x01`: a sponge with a rate of 136 bytes over the
24-round permutation of 25 lanes of 64 bits.
-/

namespace VaultKeeper.Keccak

/-- The 25 lanes; lane `(x, y)` stands at index `x + 5 * y`. -/
abbrev State := Vector UInt64 25

/-- Bytes absorbed at a time. -/
def rate : Nat := 136

/-- One constant for each round. -/
def roundConstants : List UInt64 :=
  [0x0000000000000001, 0x0000000000008082, 0x800000000000808A, 0x8000000080008000,
   0x000000000000808B, 0x0000000080000001, 0x8000000080008081, 0x8000000000008009,
   0x000000000000008A, 0x0000000000000088, 0x0000000080008009, 0x000000008000000A,
   0x000000008000808B, 0x800000000000008B, 0x8000000000008089, 0x8000000000008003,
   0x8000000000008002, 0x8000000000000080, 0x000000000000800A, 0x800000008000000A,
   0x8000000080008081, 0x8000000000008080, 0x0000000080000001, 0x8000000080008008]

/-- By how many bits each lane is rotated. -/
def rotations : Vector UInt64 25 :=
  #v[0, 1, 62, 28, 27, 36, 44, 6, 55, 20, 3, 10, 43, 25, 39, 41, 45, 15, 21, 8, 18, 2, 61, 56, 14]

/-- Rotate a lane to the left. -/
def rotate (x n : UInt64) : UInt64 :=
  if n = 0 then x else x <<< n ||| x >>> (64 - n)

/-- The lane at column `x` and row `y`, both taken modulo five. -/
def lane (s : State) (x y : Nat) : UInt64 := s.get ⟨x % 5 + 5 * (y % 5), by omega⟩

/-- The parity of a column. -/
def parity (s : State) (x : Nat) : UInt64 :=
  lane s x 0 ^^^ lane s x 1 ^^^ lane s x 2 ^^^ lane s x 3 ^^^ lane s x 4

/-- Mix each lane with the parities of two neighbouring columns. -/
def theta (s : State) : State :=
  let c : Vector UInt64 5 := .ofFn fun x => parity s x
  let d : Vector UInt64 5 := .ofFn fun x =>
    c.get ⟨(x + 4) % 5, by omega⟩ ^^^ rotate (c.get ⟨(x + 1) % 5, by omega⟩) 1
  .ofFn fun i => s.get i ^^^ d.get ⟨i % 5, by omega⟩

/-- Rotate every lane and move it to its new place. -/
def rhoPi (s : State) : State :=
  let r : State := .ofFn fun i => rotate (s.get i) (rotations.get i)
  .ofFn fun i => lane r (i % 5 + 3 * (i / 5)) (i % 5)

/-- Combine each lane with the next two of its row. -/
def chi (s : State) : State :=
  .ofFn fun i => s.get i ^^^ ((~~~ lane s (i % 5 + 1) (i / 5)) &&& lane s (i % 5 + 2) (i / 5))

/-- One round with its constant. -/
def round (s : State) (c : UInt64) : State :=
  let t := chi (rhoPi (theta s))
  t.set 0 (t.get 0 ^^^ c)

/-- All 24 rounds. -/
def permute (s : State) : State := roundConstants.foldl round s

/-- The lane whose bytes are given, least significant first. -/
def laneOfBytes (b : Bytes) : UInt64 := b.foldr (fun x n => n <<< 8 ||| x.toUInt64) 0

/-- The bytes of a lane, least significant first. -/
def bytesOfLane (x : UInt64) : Bytes :=
  (List.range 8).map fun i => (x >>> (8 * UInt64.ofNat i)).toUInt8

/-- Mix a block into the state and permute. -/
def absorb (s : State) (block : Bytes) : State :=
  permute (.ofFn fun i =>
    if i.val * 8 < rate then s.get i ^^^ laneOfBytes ((block.drop (i.val * 8)).take 8) else s.get i)

/-- Extend a message to a whole number of blocks: a byte `0x01`, zeros, and the top bit of the last
byte. -/
def pad (m : Bytes) : Bytes :=
  let gap := rate - m.length % rate
  if gap = 1 then m ++ [0x81] else m ++ 0x01 :: List.replicate (gap - 2) 0x00 ++ [0x80]

/-- Absorb the first `n` blocks of a padded message. -/
def absorbBlocks : Nat → Bytes → State → State
  | 0, _, s => s
  | n + 1, m, s => absorbBlocks n (m.drop rate) (absorb s (m.take rate))

/-- The 32-byte hash of a message. -/
def hash (m : Bytes) : Bytes :=
  let p := pad m
  let s := absorbBlocks (p.length / rate) p (.replicate 25 0)
  ((List.range 4).flatMap fun i => bytesOfLane (lane s i 0))

end VaultKeeper.Keccak
