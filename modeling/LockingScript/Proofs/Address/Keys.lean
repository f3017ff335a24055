import LockingScript.Proofs.Curve.Point

/-!
# Keys kept as addresses

A key is kept as the compressed form of its point. A key that has the length and the mark of a
compressed one is therefore kept as it is, or refused when there is no such point.
-/

namespace LockingScript.Address

theorem compressedKey_eq_ok_iff {key : Bytes} {kept : BytesN 33} :
    compressedKey key = .ok kept ↔
      IsStrictKey key ∧ ∃ p, Curve.Point.decode? key = some p ∧ p.compressed = kept := by
  unfold compressedKey
  constructor
  · intro result
    split at result
    · rename_i strict
      split at result
      · rename_i point decoded
        cases result
        exact ⟨strict, point, decoded, rfl⟩
      · cases result
    · cases result
  · rintro ⟨strict, point, decoded, rfl⟩
    rw [if_pos strict, decoded]

theorem map_compressedKey_eq_ok_iff {key : Bytes} {wrap : BytesN 33 → Address} {address : Address} :
    (compressedKey key).map wrap = .ok address ↔
      ∃ kept, compressedKey key = .ok kept ∧ wrap kept = address := by
  cases compressedKey key <;> simp [Except.map]

theorem map_compressedKey_eq_ok_iff_of_marked {key : Bytes} {wrap : BytesN 33 → Address}
    {address : Address} (marked : IsCompressedKey key) :
    (compressedKey key).map wrap = .ok address ↔
      ∃ p : Curve.Point, p.compressed.val = key ∧ wrap p.compressed = address := by
  rw [map_compressedKey_eq_ok_iff]
  constructor
  · rintro ⟨kept, result, rfl⟩
    obtain ⟨_, point, decoded, rfl⟩ := compressedKey_eq_ok_iff.mp result
    exact ⟨point, Curve.Point.compressed_of_decode? marked decoded, rfl⟩
  · rintro ⟨point, rfl, rfl⟩
    have kept := compressedKey_eq_ok_iff.mpr ⟨.inl marked, point, point.decode?_compressed, rfl⟩
    exact ⟨_, kept, rfl⟩

/-- A secp256k1 key is kept as the compressed form of its point. -/
theorem ofSecpKey_eq_ok_iff {key : Bytes} {address : Address} :
    ofSecpKey key = .ok address ↔
      IsStrictKey key ∧
        ∃ p, Curve.Point.decode? key = some p ∧ .secpKey p.compressed = address := by
  rw [ofSecpKey, map_compressedKey_eq_ok_iff]
  constructor
  · rintro ⟨kept, result, rfl⟩
    obtain ⟨strict, point, decoded, rfl⟩ := compressedKey_eq_ok_iff.mp result
    exact ⟨strict, point, decoded, rfl⟩
  · rintro ⟨strict, point, decoded, rfl⟩
    exact ⟨_, compressedKey_eq_ok_iff.mpr ⟨strict, point, decoded, rfl⟩, rfl⟩

theorem ofSecpKey_eq_ok_iff_of_marked {key : Bytes} {address : Address}
    (marked : IsCompressedKey key) :
    ofSecpKey key = .ok address ↔
      ∃ p : Curve.Point, p.compressed.val = key ∧ .secpKey p.compressed = address :=
  map_compressedKey_eq_ok_iff_of_marked marked

/-- The compressed key of the point. -/
def ofPoint (p : Curve.Point) : Address := .secpKey p.compressed

theorem ofSecpKey_compressed (p : Curve.Point) : ofSecpKey p.compressed.val = .ok (ofPoint p) :=
  (ofSecpKey_eq_ok_iff_of_marked p.isCompressedKey_compressed).mpr ⟨p, rfl, rfl⟩

theorem exists_ofPoint_of_ofSecpKey {key : Bytes} {address : Address}
    (made : ofSecpKey key = .ok address) : ∃ p, ofPoint p = address := by
  obtain ⟨_, point, _, kept⟩ := ofSecpKey_eq_ok_iff.mp made
  exact ⟨point, kept⟩

theorem ofSchnorrKey_eq_ok_iff {key : Bytes} {address : Address} :
    ofSchnorrKey key = .ok address ↔
      ∃ p : Curve.Point, p.compressed.val = key ∧ .schnorrKey p.compressed = address := by
  by_cases marked : IsCompressedKey key
  · rw [ofSchnorrKey, if_pos marked]
    exact map_compressedKey_eq_ok_iff_of_marked marked
  · rw [ofSchnorrKey, if_neg marked]
    constructor
    · intro result
      cases result
    · rintro ⟨point, rfl, _⟩
      exact absurd point.isCompressedKey_compressed marked

theorem ofEdwardsKey_eq_ok_iff {key : Bytes} {address : Address} :
    ofEdwardsKey key = .ok address ↔
      ∃ kept : BytesN 32, kept.val = key ∧ .edwardsKey kept = address := by
  unfold ofEdwardsKey
  cases exact : key.exactly? 32 with
  | none =>
      constructor
      · intro result
        cases result
      · rintro ⟨kept, rfl, _⟩
        rw [Bytes.exactly?_val] at exact
        cases exact
  | some kept =>
      obtain rfl := Bytes.exactly?_eq_some_iff.mp exact
      simp [Subtype.val_inj]

theorem hashOf_val (hash : BytesN 20) : hashOf hash.val = .ok hash := by
  rw [hashOf, Bytes.exactly?_val]

theorem ofPubKeyHash_val (hash : BytesN 20) (scheme : SignatureScheme) :
    ofPubKeyHash hash.val scheme = .ok (.pubKeyHash hash scheme) := by
  rw [ofPubKeyHash, hashOf_val]
  rfl

theorem ofScriptHash_val (hash : BytesN 20) : ofScriptHash hash.val = .ok (.scriptHash hash) := by
  rw [ofScriptHash, hashOf_val]
  rfl

end LockingScript.Address
