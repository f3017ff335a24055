/-!
# The coordinate field

Coordinates of curve points are the numbers below a prime `p` that leaves the remainder 3 when
divided by 4. A square therefore has its `(p + 1) / 4`-th power as a root.
-/

namespace LockingScript.Curve

/-- The order of the coordinate field of secp256k1, `2 ^ 256 - 2 ^ 32 - 977`. -/
def fieldOrder : Nat := 0xfffffffffffffffffffffffffffffffffffffffffffffffffffffffefffffc2f

/-- The `e`-th power of `b` modulo `m`, by repeated squaring. -/
def powMod (m b e : Nat) : Nat :=
  if e = 0 then 1 % m
  else
    let half := powMod m (b * b % m) (e / 2)
    if e % 2 = 1 then b * half % m else half

/-- A root of `a` if `a` is a square, and any other number if it is not. -/
def sqrtCandidate (a : Nat) : Nat := powMod fieldOrder a ((fieldOrder + 1) / 4)

end LockingScript.Curve
