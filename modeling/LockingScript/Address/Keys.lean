import LockingScript.Curve.Point
import LockingScript.Error

/-!
# Addresses from bytes

Hashes have 20 bytes. A secp256k1 key is strictly encoded when its mark and its length agree, and
only then is it looked up on the curve. An Ed25519 key is any 32 bytes.
-/

namespace LockingScript

/-- Whether the mark and the length are those of a compressed secp256k1 key. -/
def IsCompressedKey (key : Bytes) : Prop :=
  key.length = 33 ∧ (key.head? = some 0x02 ∨ key.head? = some 0x03)

instance (key : Bytes) : Decidable (IsCompressedKey key) :=
  inferInstanceAs (Decidable (_ ∧ _))

/-- Whether the mark and the length are those of a secp256k1 key, compressed or not. -/
def IsStrictKey (key : Bytes) : Prop :=
  IsCompressedKey key ∨ key.length = 65 ∧ key.head? = some 0x04

instance (key : Bytes) : Decidable (IsStrictKey key) :=
  inferInstanceAs (Decidable (_ ∨ _))

namespace Address

def hashOf (b : Bytes) : Except Error (BytesN 20) :=
  match b.exactly? 20 with
  | some hash => .ok hash
  | none => .error (.hashLength b.length)

def ofPubKeyHash (b : Bytes) (scheme : SignatureScheme) : Except Error Address :=
  (hashOf b).map fun hash => .pubKeyHash hash scheme

def ofScriptHash (b : Bytes) : Except Error Address := (hashOf b).map .scriptHash

/-- The compressed form of a secp256k1 key. -/
def compressedKey (key : Bytes) : Except Error (BytesN 33) :=
  if IsStrictKey key then
    match Curve.Point.decode? key with
    | some point => .ok point.compressed
    | none => .error .notOnCurve
  else .error (.looseKey key.length)

def ofSecpKey (key : Bytes) : Except Error Address := (compressedKey key).map .secpKey

def ofEdwardsKey (key : Bytes) : Except Error Address :=
  match key.exactly? 32 with
  | some key => .ok (.edwardsKey key)
  | none => .error (.edwardsKeyLength key.length)

def ofSchnorrKey (key : Bytes) : Except Error Address :=
  if IsCompressedKey key then (compressedKey key).map .schnorrKey
  else .error (.looseSchnorrKey key.length)

end Address

end LockingScript
