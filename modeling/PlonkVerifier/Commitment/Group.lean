import PlonkVerifier.ByteCodec
import PlonkVerifier.Curve.Jacobian

/-!
# Commitment/Group — the group commitments live in

The verifier uses three things of a commitment group: a distinguished element, weighted sums, and a
written form.  Everything about proofs is stated over this interface; `Point` is its instance.
-/

namespace PlonkVerifier

/-- A group whose elements can be combined with scalars and written as bytes. -/
class CommitmentGroup (G : Type) extends ByteCodec G where
  /-- The commitment to the constant one. -/
  base : G
  /-- The sum of the multiples `k • P` over the pairs `(k, P)`. -/
  weightedSum : List (Scalar × G) → G

namespace CommitmentGroup

variable {G : Type} [CommitmentGroup G]

/-- The weighted sum of points given beside their scalars. -/
def multiExp (scalars : List Scalar) (points : List G) : Except AlgebraError G :=
  if scalars.length = points.length then .ok (weightedSum (scalars.zip points))
  else .error .parameter

end CommitmentGroup

instance : CommitmentGroup Point where
  base := Point.base
  weightedSum := Point.weightedSum

end PlonkVerifier
