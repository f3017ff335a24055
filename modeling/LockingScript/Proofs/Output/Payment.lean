import LockingScript.Output.Payment
import LockingScript.Proofs.Script.Build

/-!
# Scripts that pay to an address

Every address can be paid to: hashes and keys are pushed directly, so the script is short and has
tokens that depend on the address alone.
-/

namespace LockingScript

namespace SignatureScheme

/-- The tokens that check a signature of the scheme. -/
def checkTokens : SignatureScheme → List Token
  | .ecdsa => [⟨.checkSig, []⟩]
  | scheme => [⟨.ofSmallInt scheme.code, []⟩, ⟨.checkSigAlt, []⟩]

theorem checkTokens_of_ne {scheme : SignatureScheme} (other : scheme ≠ .ecdsa) :
    scheme.checkTokens = [⟨.ofSmallInt scheme.code, []⟩, ⟨.checkSigAlt, []⟩] := by
  cases scheme with
  | ecdsa => exact absurd rfl other
  | ed25519 => rfl
  | schnorr => rfl

theorem writes_checkTokens (scheme : SignatureScheme) :
    List.Forall₂ Step.Writes scheme.checkSteps scheme.checkTokens := by
  cases scheme with
  | ecdsa => exact .cons (Step.writes_opcode rfl) .nil
  | ed25519 => exact .cons (Step.writes_int 1) <| .cons (Step.writes_opcode rfl) .nil
  | schnorr => exact .cons (Step.writes_int 2) <| .cons (Step.writes_opcode rfl) .nil

end SignatureScheme

namespace Address

/-- The tokens of a script that pays to the address. -/
def paymentTokens : Address → List Token
  | .pubKeyHash hash scheme =>
      [⟨.dup, []⟩, ⟨.hash160, []⟩, ⟨.data 20, hash.val⟩, ⟨.equalVerify, []⟩] ++ scheme.checkTokens
  | .scriptHash hash => [⟨.hash160, []⟩, ⟨.data 20, hash.val⟩, ⟨.equal, []⟩]
  | .secpKey key => ⟨.data 33, key.val⟩ :: SignatureScheme.ecdsa.checkTokens
  | .edwardsKey key => ⟨.data 32, key.val⟩ :: SignatureScheme.ed25519.checkTokens
  | .schnorrKey key => ⟨.data 33, key.val⟩ :: SignatureScheme.schnorr.checkTokens

theorem writes_paymentTokens (address : Address) :
    List.Forall₂ Step.Writes address.paymentSteps address.paymentTokens := by
  have plain {op : Opcode} (rule : op.lengthRule = .fixed 0) := Step.writes_opcode rule
  have direct {n : Nat} (b : BytesN n) (range : 2 ≤ n ∧ n ≤ 75) :=
    Step.writes_bytesN b range.1 range.2
  cases address with
  | pubKeyHash hash scheme =>
      refine List.rel_append ?_ scheme.writes_checkTokens
      exact .cons (plain rfl) <| .cons (plain rfl) <| .cons (direct hash (by decide)) <|
        .cons (plain rfl) .nil
  | scriptHash hash =>
      exact .cons (plain rfl) <| .cons (direct hash (by decide)) <| .cons (plain rfl) .nil
  | secpKey key => exact .cons (direct key (by decide)) (SignatureScheme.writes_checkTokens _)
  | edwardsKey key => exact .cons (direct key (by decide)) (SignatureScheme.writes_checkTokens _)
  | schnorrKey key => exact .cons (direct key (by decide)) (SignatureScheme.writes_checkTokens _)

theorem wellFormed_of_mem_paymentTokens {address : Address} :
    ∀ t ∈ address.paymentTokens, t.WellFormed := by
  have read := Script.tokenize_of_writes address.writes_paymentTokens
  exact (tokenize_eq_ok_iff.mp read).1

/-- Each token takes one byte besides its data, and only the payload is data. -/
theorem sum_size_paymentTokens (address : Address) :
    (address.paymentTokens.map Token.size).sum =
      address.paymentTokens.length + address.payload.length := by
  rcases address with ⟨hash, _ | _ | _⟩ | hash | key | key | key <;>
    simp (disch := decide) only [paymentTokens, SignatureScheme.checkTokens, payload,
      List.cons_append, List.nil_append, List.map_cons, List.map_nil, List.sum_cons, List.sum_nil,
      List.length_cons, List.length_nil, Token.size_plain, Token.size_direct] <;>
    omega

theorem sum_size_paymentTokens_le (address : Address) :
    (address.paymentTokens.map Token.size).sum ≤ maxScriptSize := by
  have tokens : address.paymentTokens.length ≤ 6 := by
    rcases address with ⟨hash, _ | _ | _⟩ | hash | key | key | key <;>
      simp [paymentTokens, SignatureScheme.checkTokens]
  have payload : address.payload.length ≤ 33 := by
    rcases address with ⟨b, scheme⟩ | b | b | b | b <;>
      exact Nat.le_trans (Nat.le_of_eq b.property) (by decide)
  rw [sum_size_paymentTokens, maxScriptSize]
  omega

end Address

namespace Script

theorem payTo_some (address : Address) :
    payTo (some address) = .ok ⟨address.paymentTokens.flatMap Token.bytes⟩ :=
  build_of_writes address.writes_paymentTokens address.sum_size_paymentTokens_le

theorem tokenize_payTo (address : Address) :
    tokenize 0 (address.paymentTokens.flatMap Token.bytes) = .ok address.paymentTokens :=
  tokenize_of_writes address.writes_paymentTokens

end Script

def sampleAddress : Address := .scriptHash ⟨List.replicate 20 0x55, List.length_replicate⟩

/-- The script that pays to the sample. -/
def samplePayment : Bytes := [0xa9, 0x14] ++ List.replicate 20 0x55 ++ [0x87]

example : Script.payTo (some sampleAddress) = .ok ⟨samplePayment⟩ := by decide

end LockingScript
