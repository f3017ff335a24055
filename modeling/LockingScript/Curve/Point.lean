import LockingScript.Bytes.LittleEndian
import LockingScript.Curve.Field

/-!
# Curve points

The points of secp256k1 other than the point at infinity: pairs of field elements with
`y ^ 2 = x ^ 3 + 7`. A point is written as the byte `0x04` and both coordinates, or compressed as
the byte `0x02` or `0x03`, for an even or odd `y`, and the first coordinate. Coordinates take 32
bytes each, most significant first.
-/

namespace LockingScript.Curve

def OnCurve (x y : Nat) : Prop := y * y % fieldOrder = (x * x * x + 7) % fieldOrder

instance (x y : Nat) : Decidable (OnCurve x y) :=
  inferInstanceAs (Decidable (_ = _))

structure Point where
  x : Nat
  y : Nat
  x_lt : x < fieldOrder
  y_lt : y < fieldOrder
  onCurve : OnCurve x y
deriving DecidableEq, Repr

namespace Point

def ofCoordinates? (x y : Nat) : Option Point :=
  if h : x < fieldOrder ∧ y < fieldOrder ∧ OnCurve x y then some ⟨x, y, h.1, h.2.1, h.2.2⟩
  else none

/-- The point with the given first coordinate and parity of the second. -/
def ofFirst? (odd : Bool) (x : Nat) : Option Point :=
  let root := sqrtCandidate ((x * x * x + 7) % fieldOrder)
  ofCoordinates? x (if (root % 2 == 1) = odd then root else fieldOrder - root)

/-- The number that bytes spell, most significant first. -/
def coordinate (b : Bytes) : Nat := LittleEndian.decode b.reverse

def decode? : Bytes → Option Point
  | [] => none
  | mark :: body =>
      if mark = 0x02 ∧ body.length = 32 then ofFirst? false (coordinate body)
      else if mark = 0x03 ∧ body.length = 32 then ofFirst? true (coordinate body)
      else if mark = 0x04 ∧ body.length = 64 then
        ofCoordinates? (coordinate (body.take 32)) (coordinate (body.drop 32))
      else none

def compressed (p : Point) : BytesN 33 :=
  ⟨(if p.y % 2 = 1 then 0x03 else 0x02) :: (LittleEndian.encode 32 p.x).reverse, by simp⟩

theorem ofCoordinates?_eq_some_iff {x y : Nat} {p : Point} :
    ofCoordinates? x y = some p ↔ p.x = x ∧ p.y = y := by
  unfold ofCoordinates?
  split
  · constructor
    · intro h
      cases h
      exact ⟨rfl, rfl⟩
    · rintro ⟨rfl, rfl⟩
      rfl
  · rename_i h
    simp only [reduceCtorEq, false_iff]
    rintro ⟨rfl, rfl⟩
    exact h ⟨p.x_lt, p.y_lt, p.onCurve⟩

end Point

end LockingScript.Curve
