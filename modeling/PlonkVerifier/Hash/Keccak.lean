import PlonkVerifier.Bytes

/-!
# Hash/Keccak — Keccak-256

The sponge with rate 136 over the 24-round permutation of 25 lanes, with the padding `1 0* 1` that
precedes the standardised hash: the first padding byte is `01`.  Lane `(x, y)` sits at index `x + 5 y`.
-/

namespace PlonkVerifier

/-- Consecutive blocks of `size` bytes; a shorter rest is dropped. -/
def Bytes.blocks (size : Nat) (bytes : Bytes) : List Bytes :=
  (List.range (bytes.length / size)).map fun i => (bytes.drop (i * size)).take size

namespace Keccak

/-- The permutation's state. -/
abbrev State := Vector UInt64 25

/-- The lane at `(x, y)`, both modulo 5. -/
def State.lane (s : State) (x y : Nat) : UInt64 := s[x % 5 + 5 * (y % 5)]

/-- The state with the given lanes. -/
def State.ofLanes (f : (x y : Nat) → UInt64) : State :=
  Vector.ofFn fun i => f (i.val % 5) (i.val / 5)

/-- Rotation to the left. -/
def rotate (w : UInt64) (k : UInt64) : UInt64 := w <<< k ||| w >>> (64 - k)

/-- The rotation of each lane. -/
def offsets : Vector UInt64 25 :=
  #v[0, 1, 62, 28, 27,
    36, 44, 6, 55, 20,
    3, 10, 43, 25, 39,
    41, 45, 15, 21, 8,
    18, 2, 61, 56, 14]

/-- The constant of each round. -/
def roundConstants : List UInt64 :=
  [0x0000000000000001, 0x0000000000008082, 0x800000000000808a, 0x8000000080008000,
    0x000000000000808b, 0x0000000080000001, 0x8000000080008081, 0x8000000000008009,
    0x000000000000008a, 0x0000000000000088, 0x0000000080008009, 0x000000008000000a,
    0x000000008000808b, 0x800000000000008b, 0x8000000000008089, 0x8000000000008003,
    0x8000000000008002, 0x8000000000000080, 0x000000000000800a, 0x800000008000000a,
    0x8000000080008081, 0x8000000000008080, 0x0000000080000001, 0x8000000080008008]

/-- Adds to each lane the parities of two neighbouring columns. -/
def theta (s : State) : State :=
  let parity : Vector UInt64 5 := Vector.ofFn fun x =>
    s.lane x 0 ^^^ s.lane x 1 ^^^ s.lane x 2 ^^^ s.lane x 3 ^^^ s.lane x 4
  .ofLanes fun x y =>
    s.lane x y ^^^ parity[(x + 4) % 5] ^^^ rotate parity[(x + 1) % 5] 1

/-- Rotates the lanes and moves lane `(x, y)` to `(y, 2x + 3y)`. -/
def rhoPi (s : State) : State :=
  .ofLanes fun x y => rotate (s.lane (x + 3 * y) x) (State.lane offsets (x + 3 * y) x)

/-- The nonlinear step along rows. -/
def chi (s : State) : State :=
  .ofLanes fun x y => s.lane x y ^^^ (~~~ s.lane (x + 1) y &&& s.lane (x + 2) y)

/-- One round. -/
def round (s : State) (constant : UInt64) : State :=
  let s := chi (rhoPi (theta s))
  s.set 0 (s[0] ^^^ constant)

/-- The permutation. -/
def permute (s : State) : State := roundConstants.foldl round s

/-- The number of bytes absorbed at once. -/
def rate : Nat := 136

/-- Fills up to a multiple of the rate. -/
def pad (message : Bytes) : Bytes :=
  let gap := rate - message.length % rate
  message ++ if gap = 1 then [0x81] else 0x01 :: List.replicate (gap - 2) 0x00 ++ [0x80]

/-- Adds a block to the state and permutes. -/
def absorb (s : State) (block : Bytes) : State :=
  permute (Vector.ofFn fun i =>
    s[i] ^^^ UInt64.ofNat (Bytes.toNat ((block.drop (8 * i.val)).take 8)))

/-- The 32-byte digest of `message`. -/
def digest (message : Bytes) : Bytes :=
  let s := ((pad message).blocks rate).foldl absorb (Vector.replicate 25 0)
  (s.toList.take 4).flatMap fun lane => Bytes.ofNat 8 lane.toNat

end Keccak

end PlonkVerifier
