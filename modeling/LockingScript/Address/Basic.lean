import LockingScript.Bytes.Basic

/-!
# Addresses

An address holds the hash or the key that a script pays to. Keys of secp256k1 are kept in their
compressed form.
-/

namespace LockingScript

inductive SignatureScheme where
  | ecdsa
  | ed25519
  | schnorr
deriving DecidableEq, Repr

namespace SignatureScheme

/-- The number that selects the scheme in a script. -/
def code : SignatureScheme → Nat
  | .ecdsa => 0
  | .ed25519 => 1
  | .schnorr => 2

/-- The scheme that a script selects by number. ECDSA is never selected, it is the scheme of
scripts that select none. -/
def ofSelector? : Nat → Option SignatureScheme
  | 1 => some .ed25519
  | 2 => some .schnorr
  | _ => none

theorem ofSelector?_eq_some_iff {n : Nat} {s : SignatureScheme} :
    ofSelector? n = some s ↔ s ≠ .ecdsa ∧ n = s.code := by
  unfold ofSelector?
  split <;> cases s <;> simp [code] <;> omega

def description : SignatureScheme → String
  | .ecdsa => "EcdsaSecp256k1"
  | .ed25519 => "Ed25519"
  | .schnorr => "SchnorrSecp256k1"

end SignatureScheme

inductive Address where
  | pubKeyHash (hash : BytesN 20) (scheme : SignatureScheme)
  | scriptHash (hash : BytesN 20)
  | secpKey (key : BytesN 33)
  | edwardsKey (key : BytesN 32)
  | schnorrKey (key : BytesN 33)
deriving DecidableEq, Repr

namespace Address

def payload : Address → Bytes
  | .pubKeyHash hash _ => hash.val
  | .scriptHash hash => hash.val
  | .secpKey key => key.val
  | .edwardsKey key => key.val
  | .schnorrKey key => key.val

/-- The bytes as decimal numbers in brackets. -/
def byteList (b : Bytes) : String :=
  "[" ++ ", ".intercalate (b.map fun x => toString x.toNat) ++ "]"

/-- The address as it is shown in messages. -/
def description : Address → String
  | .pubKeyHash hash scheme =>
      "PubKeyHash \x7b hash: " ++ byteList hash.val ++ ", sig_type: " ++ scheme.description ++
        " \x7d"
  | .scriptHash hash => "ScriptHash \x7b hash: " ++ byteList hash.val ++ " \x7d"
  | .secpKey key => "SecpPubKey(" ++ byteList key.val ++ ")"
  | .edwardsKey key => "EdwardsPubKey(" ++ byteList key.val ++ ")"
  | .schnorrKey key => "SchnorrPubKey(" ++ byteList key.val ++ ")"

end Address

end LockingScript
