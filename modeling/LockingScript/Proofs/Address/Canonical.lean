import LockingScript.Proofs.Address.Keys

/-!
# One address for each point

A secp256k1 key is accepted if it is one of the two ways of writing a point, and is kept as the
shorter one. Keys therefore have the same address exactly when they are written for the same point,
and a key that is kept is kept as it is when it is read again, under either scheme.
-/

namespace LockingScript.Address

open Curve (Point)

variable {key other : Bytes} {address found : Address} {p : Point}

theorem ofSecpKey_eq_ok_iff_encodes :
    ofSecpKey key = .ok address ↔ ∃ p : Point, p.Encodes key ∧ ofPoint p = address := by
  rw [ofSecpKey_eq_ok_iff]
  constructor
  · rintro ⟨-, p, decoded, made⟩
    exact ⟨p, Point.decode?_eq_some_iff.mp decoded, made⟩
  · rintro ⟨p, encodes, made⟩
    exact ⟨encodes.isStrictKey, p, Point.decode?_eq_some_iff.mpr encodes, made⟩

theorem ofSecpKey_of_encodes (encodes : p.Encodes key) : ofSecpKey key = .ok (ofPoint p) :=
  ofSecpKey_eq_ok_iff_encodes.mpr ⟨p, encodes, rfl⟩

theorem ofPoint_injective : Function.Injective ofPoint := by
  intro p q same
  exact Point.compressed_injective (secpKey.inj same)

theorem ofSchnorrKey_compressed (p : Point) :
    ofSchnorrKey p.compressed.val = .ok (.schnorrKey p.compressed) :=
  ofSchnorrKey_eq_ok_iff.mpr ⟨p, rfl, rfl⟩

/-- Only the longer way of writing a point is not accepted for Schnorr signatures. -/
theorem exists_ofSchnorrKey_eq_ok_iff :
    (∃ address, ofSchnorrKey key = .ok address) ↔
      key.length = 33 ∧ ∃ address, ofSecpKey key = .ok address := by
  constructor
  · rintro ⟨address, made⟩
    obtain ⟨p, rfl, -⟩ := ofSchnorrKey_eq_ok_iff.mp made
    exact ⟨p.compressed.property, _, ofSecpKey_compressed p⟩
  · rintro ⟨length, address, made⟩
    obtain ⟨p, encodes, -⟩ := ofSecpKey_eq_ok_iff_encodes.mp made
    cases encodes with
    | compressed => exact ⟨_, ofSchnorrKey_compressed p⟩
    | uncompressed =>
        rw [p.uncompressed.property] at length
        exact absurd length (by decide)

/-- A key that is accepted for Schnorr signatures is kept as it is for both schemes. -/
theorem payload_of_ofSchnorrKey (made : ofSchnorrKey key = .ok address)
    (kept : ofSecpKey key = .ok found) : address.payload = key ∧ found.payload = key := by
  obtain ⟨p, rfl, rfl⟩ := ofSchnorrKey_eq_ok_iff.mp made
  rw [ofSecpKey_compressed, Except.ok.injEq] at kept
  exact ⟨rfl, kept ▸ rfl⟩

/-- Keys have the same address exactly when they are written for the same point. -/
theorem eq_iff_encodes (made : ofSecpKey key = .ok address) (kept : ofSecpKey other = .ok found) :
    address = found ↔ ∃ p : Point, p.Encodes key ∧ p.Encodes other := by
  obtain ⟨p, first, rfl⟩ := ofSecpKey_eq_ok_iff_encodes.mp made
  obtain ⟨q, second, rfl⟩ := ofSecpKey_eq_ok_iff_encodes.mp kept
  constructor
  · intro same
    obtain rfl := ofPoint_injective same
    exact ⟨p, first, second⟩
  · rintro ⟨point, left, right⟩
    rw [first.unique left, second.unique right]

/-- Keys are normalised to the compressed form of their points. What is kept is accepted again and
kept unchanged for both schemes, Schnorr signatures take just the accepted keys of 33 bytes, and
there is one address for each point, whichever way it is written. -/
theorem keys_canonical :
    (∀ (key : Bytes) (kept : BytesN 33), ofSecpKey key = .ok (.secpKey kept) →
      IsCompressedKey kept.val ∧ ofSecpKey kept.val = .ok (.secpKey kept) ∧
        ofSchnorrKey kept.val = .ok (.schnorrKey kept)) ∧
    (∀ key : Bytes,
      (∃ address, ofSchnorrKey key = .ok address) ↔
        key.length = 33 ∧ ∃ address, ofSecpKey key = .ok address) ∧
    (∀ (key : Bytes) (address found : Address), ofSchnorrKey key = .ok address →
      ofSecpKey key = .ok found → address.payload = key ∧ found.payload = key) ∧
    (∀ (key other : Bytes) (address found : Address), ofSecpKey key = .ok address →
      ofSecpKey other = .ok found →
      (address = found ↔ ∃ p : Point, p.Encodes key ∧ p.Encodes other)) ∧
    ∀ key : Bytes,
      (∃ kept, ofSecpKey key = .ok (.secpKey kept)) ↔ ∃ p : Point, p.Encodes key := by
  refine ⟨?_, fun key => exists_ofSchnorrKey_eq_ok_iff, fun key address found =>
    payload_of_ofSchnorrKey, fun key other address found => eq_iff_encodes, ?_⟩
  · intro key kept made
    obtain ⟨p, -, same⟩ := ofSecpKey_eq_ok_iff_encodes.mp made
    obtain rfl : p.compressed = kept := secpKey.inj same
    exact ⟨p.isCompressedKey_compressed, ofSecpKey_compressed p, ofSchnorrKey_compressed p⟩
  · intro key
    constructor
    · rintro ⟨kept, made⟩
      obtain ⟨p, encodes, -⟩ := ofSecpKey_eq_ok_iff_encodes.mp made
      exact ⟨p, encodes⟩
    · rintro ⟨p, encodes⟩
      exact ⟨p.compressed, ofSecpKey_of_encodes encodes⟩

/-- The generator and its opposite share the first coordinate. -/
def oppositeGenerator : Point where
  x := Point.generator.x
  y := Curve.fieldOrder - Point.generator.y
  x_lt := Point.generator.x_lt
  y_lt := by decide
  onCurve := by decide +kernel

theorem keys_canonical_generator :
    ofSecpKey Point.generator.uncompressed.val = .ok (.secpKey Point.generator.compressed) ∧
      ofSecpKey Point.generator.compressed.val = .ok (.secpKey Point.generator.compressed) ∧
      ofSchnorrKey Point.generator.compressed.val = .ok (.schnorrKey Point.generator.compressed) ∧
      ofSecpKey oppositeGenerator.compressed.val = .ok (.secpKey oppositeGenerator.compressed) ∧
      ofPoint Point.generator ≠ ofPoint oppositeGenerator ∧
      ¬ ∃ address, ofSchnorrKey Point.generator.uncompressed.val = .ok address := by
  obtain ⟨again, lengths, -, points, -⟩ := keys_canonical
  have long := ofSecpKey_of_encodes (.uncompressed : Point.generator.Encodes _)
  have short := ofSecpKey_of_encodes (.compressed : oppositeGenerator.Encodes _)
  obtain ⟨-, kept, schnorr⟩ := again _ _ long
  refine ⟨long, kept, schnorr, short, ?_, ?_⟩
  · intro same
    obtain ⟨p, first, second⟩ := (points _ _ _ _ long short).mp same
    have generator := first.unique .uncompressed
    have opposite := second.unique .compressed
    rw [generator] at opposite
    exact absurd opposite (by decide)
  · intro accepted
    have length := ((lengths _).mp accepted).1
    rw [Point.generator.uncompressed.property] at length
    exact absurd length (by decide)

end LockingScript.Address
