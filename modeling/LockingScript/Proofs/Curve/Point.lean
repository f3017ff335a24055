import LockingScript.Address.Keys
import LockingScript.Proofs.Bytes.LittleEndian
import LockingScript.Proofs.Curve.Field

/-!
# Compressed points

The first coordinate and the parity of the second one determine a point, so compressing a point and
decoding a compressed one are inverse to each other.
-/

namespace LockingScript.Curve.Point

theorem ofFirst?_eq_some_iff {odd : Bool} {x : Nat} {p : Point} :
    ofFirst? odd x = some p ↔ p.x = x ∧ (p.y % 2 == 1) = odd := by
  have oddOrder : fieldOrder % 2 = 1 := by decide
  have yLt := p.y_lt
  simp only [ofFirst?, ofCoordinates?_eq_some_iff]
  constructor
  · rintro ⟨rfl, chosen⟩
    refine ⟨rfl, ?_⟩
    -- The other root is chosen only if it is not the field order itself.
    have rootLt := sqrtCandidate_lt ((p.x * p.x * p.x + 7) % fieldOrder)
    generalize sqrtCandidate ((p.x * p.x * p.x + 7) % fieldOrder) = root at chosen rootLt
    by_cases parity : (root % 2 == 1) = odd
    · rwa [chosen, if_pos parity]
    · rw [if_neg parity] at chosen
      have flipped : (p.y % 2 == 1) = !(root % 2 == 1) := by
        rw [Bool.eq_iff_iff]
        simp only [Bool.not_eq_true', beq_iff_eq, beq_eq_false_iff_ne]
        omega
      rw [flipped, Bool.eq_not_of_ne parity, Bool.not_not]
  · rintro ⟨rfl, rfl⟩
    refine ⟨rfl, ?_⟩
    rw [← p.onCurve]
    rcases sqrtCandidate_square yLt with root | root
    · rw [root, if_pos rfl]
    · generalize sqrtCandidate (p.y * p.y % fieldOrder) = other at root
      have parity : ¬ (other % 2 == 1) = (p.y % 2 == 1) := by
        rw [Bool.eq_iff_iff]
        simp only [beq_iff_eq]
        omega
      rw [if_neg parity]
      omega

theorem coordinate_reverse_encode {x : Nat} (lt : x < fieldOrder) :
    coordinate (LittleEndian.encode 32 x).reverse = x := by
  rw [coordinate, List.reverse_reverse, LittleEndian.decode_encode]
  exact Nat.mod_eq_of_lt (Nat.lt_trans lt (by decide))

theorem reverse_encode_coordinate {b : Bytes} (length : b.length = 32) :
    (LittleEndian.encode 32 (coordinate b)).reverse = b := by
  have decoded := LittleEndian.encode_decode b.reverse
  rw [List.length_reverse, length] at decoded
  rw [coordinate, decoded, List.reverse_reverse]

theorem decode?_compressed (p : Point) : decode? p.compressed.val = some p := by
  have read := coordinate_reverse_encode p.x_lt
  by_cases odd : p.y % 2 = 1
  · simp only [compressed, if_pos odd, decode?, read]
    rw [if_neg (by simp), if_pos (by simp)]
    exact ofFirst?_eq_some_iff.mpr ⟨rfl, by simpa using odd⟩
  · simp only [compressed, if_neg odd, decode?, read]
    rw [if_pos (by simp)]
    exact ofFirst?_eq_some_iff.mpr ⟨rfl, by simpa using odd⟩

theorem compressed_of_decode? {key : Bytes} {p : Point} (marked : IsCompressedKey key)
    (decoded : decode? key = some p) : p.compressed.val = key := by
  obtain ⟨length, mark⟩ := marked
  match key with
  | [] => simp at length
  | byte :: body =>
      have bodyLength : body.length = 32 := by simpa using length
      simp only [List.head?_cons, Option.some.injEq] at mark
      rcases mark with rfl | rfl
      · rw [decode?, if_pos ⟨rfl, bodyLength⟩] at decoded
        obtain ⟨first, parity⟩ := ofFirst?_eq_some_iff.mp decoded
        have even : ¬ p.y % 2 = 1 := by simpa using parity
        simp only [compressed, if_neg even, first, reverse_encode_coordinate bodyLength]
      · rw [decode?, if_neg (by simp), if_pos ⟨rfl, bodyLength⟩] at decoded
        obtain ⟨first, parity⟩ := ofFirst?_eq_some_iff.mp decoded
        have odd : p.y % 2 = 1 := by simpa using parity
        simp only [compressed, if_pos odd, first, reverse_encode_coordinate bodyLength]

theorem isCompressedKey_compressed (p : Point) : IsCompressedKey p.compressed.val := by
  refine ⟨p.compressed.property, ?_⟩
  by_cases odd : p.y % 2 = 1
  · exact .inr (by simp [compressed, odd])
  · exact .inl (by simp [compressed, odd])

/-- The point written as the byte `0x04` and both coordinates. -/
def uncompressed (p : Point) : BytesN 65 :=
  ⟨0x04 :: ((LittleEndian.encode 32 p.x).reverse ++ (LittleEndian.encode 32 p.y).reverse), by simp⟩

theorem decode?_uncompressed (p : Point) : decode? p.uncompressed.val = some p := by
  have first := coordinate_reverse_encode p.x_lt
  have second := coordinate_reverse_encode p.y_lt
  have length (n : Nat) : (LittleEndian.encode 32 n).reverse.length = 32 := by simp
  rw [uncompressed, decode?, if_neg (by simp), if_neg (by simp), if_pos (by simp),
    List.take_left' (length p.x), List.drop_left' (length p.x), first, second]
  exact ofCoordinates?_eq_some_iff.mpr ⟨rfl, rfl⟩

/-- A point is written in two ways. -/
inductive Encodes (p : Point) : Bytes → Prop where
  | compressed : p.Encodes p.compressed.val
  | uncompressed : p.Encodes p.uncompressed.val

theorem Encodes.isStrictKey {p : Point} {key : Bytes} (encodes : p.Encodes key) :
    IsStrictKey key := by
  cases encodes with
  | compressed => exact .inl p.isCompressedKey_compressed
  | uncompressed => exact .inr ⟨p.uncompressed.property, rfl⟩

theorem uncompressed_of_coordinates {body : Bytes} {p : Point} (length : body.length = 64)
    (read : ofCoordinates? (coordinate (body.take 32)) (coordinate (body.drop 32)) = some p) :
    p.uncompressed.val = 0x04 :: body := by
  obtain ⟨first, second⟩ := ofCoordinates?_eq_some_iff.mp read
  have front : (body.take 32).length = 32 := by simp [length]
  have back : (body.drop 32).length = 32 := by simp [length]
  simp only [uncompressed, first, second, reverse_encode_coordinate front,
    reverse_encode_coordinate back, List.take_append_drop]

/-- What can be decoded is what points are written as. -/
theorem decode?_eq_some_iff {key : Bytes} {p : Point} : decode? key = some p ↔ p.Encodes key := by
  constructor
  · intro decoded
    match key with
    | [] => cases decoded
    | mark :: body =>
        -- Both marks of compressed keys are covered at once, the parity aside.
        by_cases strict : IsCompressedKey (mark :: body)
        · rw [← compressed_of_decode? strict decoded]
          exact .compressed
        · have marked (length : body.length = 32) (either : mark = 0x02 ∨ mark = 0x03) : False :=
            strict ⟨congrArg (· + 1) length, either.imp (congrArg some) (congrArg some)⟩
          rw [decode?, if_neg fun even => marked even.2 (.inl even.1),
            if_neg fun odd => marked odd.2 (.inr odd.1)] at decoded
          split at decoded
          · rename_i both
            obtain ⟨rfl, length⟩ := both
            rw [← uncompressed_of_coordinates length decoded]
            exact .uncompressed
          · cases decoded
  · intro encodes
    cases encodes with
    | compressed => exact p.decode?_compressed
    | uncompressed => exact p.decode?_uncompressed

theorem Encodes.unique {p q : Point} {key : Bytes} (encodes : p.Encodes key)
    (other : q.Encodes key) : p = q :=
  Option.some.inj ((decode?_eq_some_iff.mpr encodes).symm.trans (decode?_eq_some_iff.mpr other))

theorem compressed_injective : Function.Injective compressed := by
  intro p q same
  have decoded := p.decode?_compressed
  rw [same, decode?_compressed] at decoded
  exact (Option.some.inj decoded).symm

/-- The generator of the group of points. -/
def generator : Point where
  x := 0x79be667ef9dcbbac55a06295ce870b07029bfcdb2dce28d959f2815b16f81798
  y := 0x483ada7726a3c4655da4fbfc0e1108a8fd17b448a68554199c47d08ffb10d4b8
  x_lt := by decide
  y_lt := by decide
  onCurve := by decide +kernel

end LockingScript.Curve.Point
