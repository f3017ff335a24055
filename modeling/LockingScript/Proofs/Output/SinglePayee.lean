import LockingScript.Proofs.Output.Payees

/-!
# Scripts with a single payee

Outside of multisig, a script that pays to one address is spelled as the script made for this
address, behind its tag if it has one. Only an uncompressed key can be spelled in another way.
-/

namespace LockingScript

namespace Form

variable {policy : Policy} {tokens : List Token} {form : Form} {address : Address}

theorem tokens_eq_of_direct (read : form.ReadFrom policy tokens)
    (wellFormed : ∀ t ∈ tokens, t.WellFormed) (single : form.addresses = [address])
    (direct : form.outputClass ∈
      [OutputClass.pubKeyHash, .pubKeyHashAlt, .scriptHash, .pubKeyAlt]) :
    tokens = address.paymentTokens := by
  cases form with
  | nonStandard | pubKey | multiSig | nullData | treasuryAdd => simp [outputClass] at direct
  | tagged tag hash => cases tag <;> simp [outputClass, Tag.outputClass] at direct
  | pubKeyHash hash =>
      obtain ⟨kept, rfl, spelled⟩ := (pubKeyHash?_eq_some_iff wellFormed).mp read
      rwa [← List.singleton_inj.mp ((addresses_pubKeyHash kept).symm.trans single)]
  | pubKeyHashAlt hash scheme =>
      obtain ⟨_, kept, rfl, spelled⟩ := (pubKeyHashAlt?_eq_some_iff wellFormed).mp read
      rwa [← List.singleton_inj.mp ((addresses_pubKeyHashAlt kept scheme).symm.trans single)]
  | scriptHash hash =>
      obtain ⟨kept, rfl, spelled⟩ := (scriptHash?_eq_some_iff wellFormed).mp read
      rwa [← List.singleton_inj.mp ((addresses_scriptHash kept).symm.trans single)]
  | pubKeyAlt key scheme =>
      obtain ⟨other, _, spelled⟩ := (pubKeyAlt?_eq_some_iff wellFormed).mp read
      have made := toList_toOption_eq_singleton_iff.mp single
      cases scheme with
      | ecdsa => exact absurd rfl other
      | ed25519 =>
          obtain ⟨kept, rfl, rfl⟩ := Address.ofEdwardsKey_eq_ok_iff.mp made
          rw [Address.paymentTokens_edwardsKey, spelled]
      | schnorr =>
          obtain ⟨point, rfl, rfl⟩ := Address.ofSchnorrKey_eq_ok_iff.mp made
          rw [Address.paymentTokens_schnorrKey, spelled]

/-- A key in a script is the compressed key of the address, or it has 65 bytes. -/
theorem spelling_of_pubKey (read : form.ReadFrom policy tokens)
    (wellFormed : ∀ t ∈ tokens, t.WellFormed) (single : form.addresses = [address])
    (isKey : form.outputClass = .pubKey) :
    form.payees = ⟨.pubKey, [address], 1⟩ ∧
      ∃ point : Curve.Point, address = .secpKey point.compressed ∧
        (tokens = address.paymentTokens ∨
          ∃ key : Bytes, key.length = 65 ∧ tokens = SignatureScheme.ecdsa.keyTokens key) := by
  cases form with
  | tagged tag hash => cases tag <;> cases isKey
  | pubKey key =>
      refine ⟨by rw [payees, single]; rfl, ?_⟩
      obtain ⟨strict, spelled⟩ := (pubKey?_eq_some_iff wellFormed).mp read
      have made := toList_toOption_eq_singleton_iff.mp single
      rcases strict with marked | uncompressed
      · obtain ⟨point, rfl, rfl⟩ := (Address.ofSecpKey_eq_ok_iff_of_marked marked).mp made
        refine ⟨point, rfl, .inl ?_⟩
        rw [Address.paymentTokens_secpKey, spelled]
      · obtain ⟨_, point, _, rfl⟩ := Address.ofSecpKey_eq_ok_iff.mp made
        exact ⟨point, rfl, .inr ⟨key, uncompressed.1, spelled⟩⟩
  | _ => cases isKey

theorem tokens_eq_of_tag (read : form.ReadFrom policy tokens)
    (wellFormed : ∀ t ∈ tokens, t.WellFormed) (single : form.addresses = [address])
    (tag : Tag) (same : form.outputClass = tag.outputClass) :
    tokens = ⟨tag.opcode, []⟩ :: address.paymentTokens := by
  cases form with
  | tagged found hash =>
      have tags : found = tag := Tag.outputClass_injective same
      obtain ⟨_, paid, rfl, spelled⟩ := (tagged?_eq_some_iff wellFormed).mp read
      rwa [← tags, ← List.singleton_inj.mp ((addresses_tagged found paid).symm.trans single)]
  | _ => cases tag <;> cases same

end Form

namespace Script

theorem length_ecdsa_keyTokens {key : Bytes} (short : key.length ≤ 75) :
    ((SignatureScheme.ecdsa.keyTokens key).flatMap Token.bytes).length = 2 + key.length := by
  have check : (SignatureScheme.ecdsa.checkTokens.map Token.size).sum = 1 := rfl
  rw [Token.length_flatMap_bytes, SignatureScheme.keyTokens, List.map_cons, List.sum_cons,
    Token.size_direct short, check]
  omega

theorem length_secpKey_payment (key : BytesN 33) :
    ((Address.secpKey key).paymentTokens.flatMap Token.bytes).length = 35 := by
  have length := key.property
  rw [Address.paymentTokens_secpKey, length_ecdsa_keyTokens (by omega), length]

/-- A script with a single payee is the script that pays to it. Behind a tag it is the rest of the
script, and a key that is not compressed in the script is compressed in the script made for it. -/
theorem payTo_of_payees {script : Bytes} {policy : Policy} {found : Payees} {address : Address}
    (read : payees 0 script policy = .ok found) (single : found.addresses = [address]) :
    (found.outputClass ∈ [OutputClass.pubKeyHash, .pubKeyHashAlt, .scriptHash, .pubKeyAlt] →
      payTo (some address) = .ok ⟨script⟩) ∧
    (found.outputClass = .pubKey →
      script.length = 35 ∧ payTo (some address) = .ok ⟨script⟩ ∨
      script.length = 67 ∧ ∃ compressed, payTo (some address) = .ok compressed ∧
        compressed.size = 35 ∧ payees 0 compressed.bytes policy = .ok found) ∧
    (∀ tag : Tag, found.outputClass = tag.outputClass →
      ∃ inner, payTo (some address) = .ok inner ∧
        script = tag.opcode.byte :: inner.bytes) := by
  obtain ⟨tokens, tokenized, rfl⟩ := payees_eq_ok_iff.mp read
  obtain ⟨wellFormed, rfl⟩ := tokenize_eq_ok_iff.mp tokenized
  have form := Form.readFrom_ofTokens policy tokens
  refine ⟨?_, ?_, ?_⟩
  · intro direct
    rw [Form.tokens_eq_of_direct form wellFormed single direct]
    exact payTo_some address
  · intro isKey
    obtain ⟨whole, point, rfl, spelling⟩ := Form.spelling_of_pubKey form wellFormed single isKey
    have made := payTo_some (.secpKey point.compressed)
    have size := length_secpKey_payment point.compressed
    rcases spelling with rfl | ⟨key, length, rfl⟩
    · exact .inl ⟨size, made⟩
    · refine .inr ⟨?_, _, made, size, ?_⟩
      · rw [length_ecdsa_keyTokens (by omega), length]
      · have valid : (Address.secpKey point.compressed).Valid := ⟨point, rfl⟩
        rw [payees_paymentTokens, Form.payees_paymentTokens_of_valid valid, whole]
        rfl
  · intro tag same
    refine ⟨_, payTo_some address, ?_⟩
    have spelled := Form.tokens_eq_of_tag form wellFormed single tag same
    have plain : (Token.mk tag.opcode []).bytes = [tag.opcode.byte] := by
      cases tag <;> rfl
    rw [spelled, List.flatMap_cons, plain]
    rfl

/-- The sample with the tag of ticket submissions. -/
def sampleSubmission : Bytes := 0xba :: samplePayment

theorem payTo_of_payees_sampleSubmission :
    payees 0 sampleSubmission .withoutTreasury = .ok ⟨.stakeSubmission, [sampleAddress], 1⟩ ∧
      ∃ inner, payTo (some sampleAddress) = .ok inner ∧ sampleSubmission = 0xba :: inner.bytes := by
  have read : payees 0 sampleSubmission .withoutTreasury =
      .ok ⟨.stakeSubmission, [sampleAddress], 1⟩ := by
    decide +kernel
  exact ⟨read, (payTo_of_payees read rfl).2.2 .submission rfl⟩

end Script

end LockingScript
