import LockingScript.Proofs.Address.Keys
import LockingScript.Proofs.Output.Exclusion

/-!
# Paying and being recognised

The script that pays to an address is recognised as paying to it. Only a secp256k1 key can be lost:
it is recognised by its mark, and it is a payee if there is a point that it is the key of.
-/

namespace LockingScript

/-- The form of a key and a signature check of the scheme. -/
def SignatureScheme.keyForm (key : Bytes) : SignatureScheme → Form
  | .ecdsa => .pubKey key
  | scheme => .pubKeyAlt key scheme

theorem SignatureScheme.keyForm_of_ne {scheme : SignatureScheme} (other : scheme ≠ .ecdsa)
    (key : Bytes) : scheme.keyForm key = .pubKeyAlt key scheme := by
  cases scheme with
  | ecdsa => exact absurd rfl other
  | ed25519 | schnorr => rfl

namespace Form

variable (policy : Policy)

theorem ofTokens_pubKeyHash (hash : BytesN 20) :
    ofTokens policy (Address.pubKeyHash hash .ecdsa).paymentTokens = pubKeyHash hash.val :=
  ofTokens_eq_of_readFrom (pubKeyHash?_paymentTokens hash) (by simp)

theorem ofTokens_pubKeyHashAlt (hash : BytesN 20) {scheme : SignatureScheme}
    (other : scheme ≠ .ecdsa) :
    ofTokens policy (Address.pubKeyHash hash scheme).paymentTokens =
      pubKeyHashAlt hash.val scheme :=
  ofTokens_eq_of_readFrom (pubKeyHashAlt?_paymentTokens hash other) (by simp)

theorem ofTokens_scriptHash (hash : BytesN 20) :
    ofTokens policy (Address.scriptHash hash).paymentTokens = scriptHash hash.val :=
  ofTokens_eq_of_readFrom (scriptHash?_paymentTokens hash) (by simp)

theorem ofTokens_keyTokens_of_accepts {scheme : SignatureScheme} {key : Bytes}
    (short : key.length ≤ 75) (accepted : scheme.Accepts key) :
    ofTokens policy (scheme.keyTokens key) = scheme.keyForm key := by
  have wellFormed := scheme.wellFormed_of_mem_keyTokens short
  by_cases other : scheme = .ecdsa
  · subst other
    have found : pubKey? (SignatureScheme.ecdsa.keyTokens key) = some key :=
      (pubKey?_eq_some_iff wellFormed).mpr ⟨accepted, rfl⟩
    have read : (pubKey key).ReadFrom policy (SignatureScheme.ecdsa.keyTokens key) := found
    exact ofTokens_eq_of_readFrom read (by simp [SignatureScheme.keyForm])
  · have found : pubKeyAlt? (scheme.keyTokens key) = some (key, scheme) :=
      (pubKeyAlt?_eq_some_iff wellFormed).mpr ⟨other, accepted, rfl⟩
    rw [SignatureScheme.keyForm_of_ne other]
    exact ofTokens_eq_of_readFrom found (by simp)

/-- A key of 33 bytes is not taken for anything else if its scheme does not accept it. -/
theorem ofTokens_keyTokens_of_not_accepts {scheme : SignatureScheme}
    {key : Bytes} (length : key.length = 33) (loose : ¬ scheme.Accepts key) :
    ofTokens policy (scheme.keyTokens key) = nonStandard := by
  have short : key.length ≤ 75 := Nat.le_trans (Nat.le_of_eq length) (by decide)
  have wellFormed := scheme.wellFormed_of_mem_keyTokens short
  have noKey : pubKey? (scheme.keyTokens key) = none := by
    apply Option.eq_none_iff_forall_ne_some.mpr
    intro found accepted
    obtain ⟨strict, same⟩ := (pubKey?_eq_some_iff wellFormed).mp accepted
    obtain ⟨rfl, rfl⟩ := SignatureScheme.keyTokens_inj.mp same
    exact loose strict
  have noKeyAlt : pubKeyAlt? (scheme.keyTokens key) = none := by
    apply Option.eq_none_iff_forall_ne_some.mpr
    rintro ⟨found, other⟩ accepted
    obtain ⟨_, strict, same⟩ := (pubKeyAlt?_eq_some_iff wellFormed).mp accepted
    obtain ⟨rfl, rfl⟩ := SignatureScheme.keyTokens_inj.mp same
    exact loose strict
  -- No other reader takes two or three tokens of which the first is such a push.
  apply ofTokens_of_refused
  intro reader membership
  simp only [readers, List.mem_cons, List.not_mem_nil, or_false] at membership
  simp only [SignatureScheme.keyTokens, length] at noKey noKeyAlt ⊢
  rcases membership with rfl | rfl | rfl | rfl | rfl | rfl | rfl | rfl | rfl
  · simp only [noKey, Option.map_none]
  · cases scheme <;> rfl
  · simp only [noKeyAlt, Option.map_none]
  · cases scheme <;> rfl
  · cases scheme <;> rfl
  · cases scheme <;> rfl
  · cases scheme <;> rfl
  · obtain ⟨_ | _⟩ := policy <;> cases scheme <;> rfl
  · obtain ⟨_ | _⟩ := policy <;> cases scheme <;> rfl

end Form

namespace Address

theorem paymentTokens_secpKey (key : BytesN 33) :
    (secpKey key).paymentTokens = SignatureScheme.ecdsa.keyTokens key.val := by
  rw [SignatureScheme.keyTokens, key.property]
  rfl

theorem paymentTokens_edwardsKey (key : BytesN 32) :
    (edwardsKey key).paymentTokens = SignatureScheme.ed25519.keyTokens key.val := by
  rw [SignatureScheme.keyTokens, key.property]
  rfl

theorem paymentTokens_schnorrKey (key : BytesN 33) :
    (schnorrKey key).paymentTokens = SignatureScheme.schnorr.keyTokens key.val := by
  rw [SignatureScheme.keyTokens, key.property]
  rfl

/-- The class of scripts that pay to addresses of this kind. -/
def paymentClass : Address → OutputClass
  | .pubKeyHash _ .ecdsa => .pubKeyHash
  | .pubKeyHash _ _ => .pubKeyHashAlt
  | .scriptHash _ => .scriptHash
  | .secpKey _ => .pubKey
  | .edwardsKey _ | .schnorrKey _ => .pubKeyAlt

theorem paymentClass_of_ne {hash : BytesN 20} {scheme : SignatureScheme} (other : scheme ≠ .ecdsa) :
    (pubKeyHash hash scheme).paymentClass = .pubKeyHashAlt := by
  cases scheme with
  | ecdsa => exact absurd rfl other
  | ed25519 | schnorr => rfl

/-- A secp256k1 key has to be the compressed form of a point. -/
def Valid : Address → Prop
  | .secpKey key | .schnorrKey key => ∃ p : Curve.Point, p.compressed = key
  | _ => True

/-- A secp256k1 key has to have a mark of compressed keys. -/
def Marked : Address → Prop
  | .secpKey key | .schnorrKey key => key.val.head? = some 0x02 ∨ key.val.head? = some 0x03
  | _ => True

end Address

namespace Form

theorem toOption_eq_some_iff {made : Except Error Address} {address : Address} :
    made.toOption = some address ↔ made = .ok address := by
  cases made <;> simp [Except.toOption]

theorem toList_toOption_eq_singleton_iff {made : Except Error Address} {address : Address} :
    made.toOption.toList = [address] ↔ made = .ok address := by
  rw [Option.toList_eq_singleton_iff, toOption_eq_some_iff]

theorem toList_toOption_eq_nil_iff {made : Except Error Address} :
    made.toOption.toList = [] ↔ ∀ address, made ≠ .ok address := by
  cases made <;> simp [Except.toOption]

/-- A hash of the right length has an address. -/
theorem addresses_pubKeyHash (hash : BytesN 20) :
    (pubKeyHash hash.val).addresses = [.pubKeyHash hash .ecdsa] := by
  rw [addresses, Address.ofPubKeyHash_val]
  rfl

theorem addresses_pubKeyHashAlt (hash : BytesN 20) (scheme : SignatureScheme) :
    (pubKeyHashAlt hash.val scheme).addresses = [.pubKeyHash hash scheme] := by
  rw [addresses, Address.ofPubKeyHash_val]
  rfl

theorem addresses_scriptHash (hash : BytesN 20) :
    (scriptHash hash.val).addresses = [.scriptHash hash] := by
  rw [addresses, Address.ofScriptHash_val]
  rfl

theorem addresses_tagged (tag : Tag) (paid : HashAddress) :
    (tagged tag paid.captured).addresses = [paid.address] := by
  cases paid with
  | pubKeyHash hash => exact addresses_pubKeyHash hash
  | scriptHash hash => exact addresses_scriptHash hash

variable {policy : Policy} {address : Address}

theorem payees_keyTokens_of_accepts {scheme : SignatureScheme} {n : Nat} (key : BytesN n)
    (short : n ≤ 75) (accepted : scheme.Accepts key.val) :
    (ofTokens policy (scheme.keyTokens key.val)).payees =
      ⟨(scheme.keyForm key.val).outputClass, (addressOfKey key.val scheme).toOption.toList, 1⟩ := by
  have length := key.property
  rw [ofTokens_keyTokens_of_accepts policy (by omega) accepted]
  cases scheme <;> rfl

theorem payees_paymentTokens_of_valid (valid : address.Valid) :
    (ofTokens policy address.paymentTokens).payees = ⟨address.paymentClass, [address], 1⟩ := by
  cases address with
  | pubKeyHash hash scheme =>
      by_cases other : scheme = .ecdsa
      · rw [other, ofTokens_pubKeyHash, payees, addresses_pubKeyHash]
        rfl
      · rw [ofTokens_pubKeyHashAlt policy hash other, Address.paymentClass_of_ne other, payees,
          addresses_pubKeyHashAlt]
        rfl
  | scriptHash hash =>
      rw [ofTokens_scriptHash, payees, addresses_scriptHash]
      rfl
  | secpKey key =>
      obtain ⟨point, rfl⟩ := valid
      have marked := point.isCompressedKey_compressed
      have accepted := (SignatureScheme.ecdsa_accepts_iff point.compressed).mpr marked
      have made : addressOfKey point.compressed.val .ecdsa = .ok (.secpKey point.compressed) :=
        Address.ofSecpKey_compressed point
      rw [Address.paymentTokens_secpKey, payees_keyTokens_of_accepts _ (by decide) accepted,
        toList_toOption_eq_singleton_iff.mpr made]
      rfl
  | edwardsKey key =>
      have accepted : SignatureScheme.ed25519.Accepts key.val := key.property
      have made : addressOfKey key.val .ed25519 = .ok (.edwardsKey key) :=
        Address.ofEdwardsKey_eq_ok_iff.mpr ⟨key, rfl, rfl⟩
      rw [Address.paymentTokens_edwardsKey, payees_keyTokens_of_accepts _ (by decide) accepted,
        toList_toOption_eq_singleton_iff.mpr made]
      rfl
  | schnorrKey key =>
      obtain ⟨point, rfl⟩ := valid
      have accepted : SignatureScheme.schnorr.Accepts point.compressed.val :=
        point.isCompressedKey_compressed
      have made : addressOfKey point.compressed.val .schnorr = .ok (.schnorrKey point.compressed) :=
        Address.ofSchnorrKey_eq_ok_iff.mpr ⟨point, rfl, rfl⟩
      rw [Address.paymentTokens_schnorrKey, payees_keyTokens_of_accepts _ (by decide) accepted,
        toList_toOption_eq_singleton_iff.mpr made]
      rfl

theorem payees_paymentTokens_of_marked (marked : address.Marked) (invalid : ¬ address.Valid) :
    (ofTokens policy address.paymentTokens).payees = ⟨address.paymentClass, [], 1⟩ := by
  cases address with
  | pubKeyHash hash scheme => exact absurd trivial invalid
  | scriptHash hash => exact absurd trivial invalid
  | edwardsKey key => exact absurd trivial invalid
  | secpKey key =>
      have compressed : IsCompressedKey key.val := ⟨key.property, marked⟩
      have accepted := (SignatureScheme.ecdsa_accepts_iff key).mpr compressed
      have refused : ∀ address, addressOfKey key.val .ecdsa ≠ .ok address := by
        intro address made
        obtain ⟨point, spelled, _⟩ := (Address.ofSecpKey_eq_ok_iff_of_marked compressed).mp made
        exact invalid ⟨point, Subtype.ext spelled⟩
      rw [Address.paymentTokens_secpKey, payees_keyTokens_of_accepts _ (by decide) accepted,
        toList_toOption_eq_nil_iff.mpr refused]
      rfl
  | schnorrKey key =>
      have accepted : SignatureScheme.schnorr.Accepts key.val := ⟨key.property, marked⟩
      have refused : ∀ address, addressOfKey key.val .schnorr ≠ .ok address := by
        intro address made
        obtain ⟨point, spelled, _⟩ := Address.ofSchnorrKey_eq_ok_iff.mp made
        exact invalid ⟨point, Subtype.ext spelled⟩
      rw [Address.paymentTokens_schnorrKey, payees_keyTokens_of_accepts _ (by decide) accepted,
        toList_toOption_eq_nil_iff.mpr refused]
      rfl

theorem payees_paymentTokens_of_not_marked (unmarked : ¬ address.Marked) :
    (ofTokens policy address.paymentTokens).payees = ⟨.nonStandard, [], 0⟩ := by
  cases address with
  | pubKeyHash hash scheme => exact absurd trivial unmarked
  | scriptHash hash => exact absurd trivial unmarked
  | edwardsKey key => exact absurd trivial unmarked
  | secpKey key =>
      have loose : ¬ SignatureScheme.ecdsa.Accepts key.val := by
        rw [SignatureScheme.ecdsa_accepts_iff]
        exact fun compressed => unmarked compressed.2
      rw [Address.paymentTokens_secpKey,
        ofTokens_keyTokens_of_not_accepts policy key.property loose]
      rfl
  | schnorrKey key =>
      have loose : ¬ SignatureScheme.schnorr.Accepts key.val :=
        fun compressed => unmarked compressed.2
      rw [Address.paymentTokens_schnorrKey,
        ofTokens_keyTokens_of_not_accepts policy key.property loose]
      rfl

end Form

namespace Script

theorem payees_paymentTokens (address : Address) (policy : Policy) :
    payees 0 (address.paymentTokens.flatMap Token.bytes) policy =
      .ok (Form.ofTokens policy address.paymentTokens).payees :=
  payees_eq_ok_iff.mpr ⟨_, tokenize_payTo address, rfl⟩

/-- Whatever an address holds, a script that pays to it can be made, and who is paid by it is read
back from it as far as the address is valid. -/
theorem payees_payTo (address : Address) (policy : Policy) :
    ∃ script found, payTo (some address) = .ok script ∧
      payees 0 script.bytes policy = .ok found ∧
      (address.Valid → found = ⟨address.paymentClass, [address], 1⟩) ∧
      (address.Marked → ¬ address.Valid → found = ⟨address.paymentClass, [], 1⟩) ∧
      (¬ address.Marked → found = ⟨.nonStandard, [], 0⟩) :=
  ⟨_, _, payTo_some address, payees_paymentTokens address policy,
    Form.payees_paymentTokens_of_valid, Form.payees_paymentTokens_of_marked,
    Form.payees_paymentTokens_of_not_marked⟩

end Script

end LockingScript
