/-!
# Field/Residue — residues modulo `n`, and their powers

A residue is its canonical number below `n`, so equality, order and text are those of that number.
Powers go by repeated squaring; `x ^ (n - 2)` inverts every nonzero residue of a prime modulus.
-/

namespace PlonkVerifier

/-- Integers modulo `n`, by their canonical representatives. -/
abbrev Residue (n : Nat) := Fin n

/-- A nonzero modulus: its residues include `0` and `1`. -/
abbrev Modulus (n : Nat) : Prop := @NeZero Nat Zero.ofOfNat0 n

namespace Residue

variable {n : Nat} [Modulus n]

/-- `x` to the low `bits` bits of `k`. -/
def powBits : (bits : Nat) → Residue n → Nat → Residue n
  | 0, _, _ => 1
  | bits + 1, x, k =>
    let higher := powBits bits (x * x) (k / 2)
    if k % 2 = 1 then x * higher else higher

/-- `x` to the `k`. -/
def pow (x : Residue n) (k : Nat) : Residue n := powBits (k.log2 + 1) x k

/-- The inverse of a nonzero residue of a prime modulus; zero at zero. -/
def inverse (x : Residue n) : Residue n := pow x (n - 2)

/-- The product of a list. -/
def product (xs : List (Residue n)) : Residue n := xs.foldl (· * ·) 1

/-- The sum of a list. -/
def sum (xs : List (Residue n)) : Residue n := xs.foldl (· + ·) 0

/-- `1, x, x², …`, with `count` entries. -/
def powers (x : Residue n) (count : Nat) : List (Residue n) := (List.range count).map x.pow

end Residue

end PlonkVerifier
