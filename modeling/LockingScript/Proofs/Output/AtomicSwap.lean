import LockingScript.Output.AtomicSwap
import LockingScript.Proofs.Script.Build

/-!
# Swap contracts are recognised

The tokens of a contract are those that the reader of contracts expects, so a swap is read back
from its contract whenever its lock time is. A lock time of -1 is pushed by an opcode of its own,
which the reader does not take for a number.
-/

namespace LockingScript.AtomicSwap

/-- The tokens of the contract. -/
def tokens (swap : AtomicSwap) : List Token :=
  [⟨.opIf, []⟩,
     ⟨.size, []⟩, .ofInt swap.secretSize, ⟨.equalVerify, []⟩,
     ⟨.sha256, []⟩, ⟨.data 32, swap.secretHash.val⟩, ⟨.equalVerify, []⟩,
     ⟨.dup, []⟩, ⟨.hash160, []⟩, ⟨.data 20, swap.recipient.val⟩,
   ⟨.opElse, []⟩,
     .ofInt swap.lockTime, ⟨.checkLockTimeVerify, []⟩, ⟨.drop, []⟩,
     ⟨.dup, []⟩, ⟨.hash160, []⟩, ⟨.data 20, swap.refund.val⟩,
   ⟨.opEndIf, []⟩,
   ⟨.equalVerify, []⟩, ⟨.checkSig, []⟩]

theorem writes_tokens (swap : AtomicSwap) :
    List.Forall₂ Step.Writes swap.steps swap.tokens := by
  have plain {op : Opcode} (rule : op.lengthRule = .fixed 0) := Step.writes_opcode rule
  exact
    .cons (plain (by decide)) <|
    .cons (plain (by decide)) <| .cons (Step.writes_int _) <| .cons (plain (by decide)) <|
    .cons (plain (by decide)) <|
    .cons (Step.writes_bytesN _ (by decide) (by decide)) <| .cons (plain (by decide)) <|
    .cons (plain (by decide)) <| .cons (plain (by decide)) <|
    .cons (Step.writes_bytesN _ (by decide) (by decide)) <|
    .cons (plain (by decide)) <|
    .cons (Step.writes_int _) <| .cons (plain (by decide)) <| .cons (plain (by decide)) <|
    .cons (plain (by decide)) <| .cons (plain (by decide)) <|
    .cons (Step.writes_bytesN _ (by decide) (by decide)) <|
    .cons (plain (by decide)) <|
    .cons (plain (by decide)) <| .cons (plain (by decide)) .nil

theorem size_tokens_le (swap : AtomicSwap) :
    (swap.tokens.map Token.size).sum ≤ maxScriptSize := by
  have secretSize := Token.size_ofInt_le swap.secretSize
  have lockTime := Token.size_ofInt_le swap.lockTime
  have total : (swap.tokens.map Token.size).sum =
      90 + (Token.ofInt swap.secretSize).size + (Token.ofInt swap.lockTime).size := by
    simp (disch := decide) only [tokens, List.map_cons, List.map_nil, List.sum_cons,
      List.sum_nil, Token.size_plain, Token.size_direct, swap.secretHash.property,
      swap.recipient.property, swap.refund.property]
    omega
  rw [total, maxScriptSize]
  omega

theorem contract_eq (swap : AtomicSwap) :
    swap.contract = .ok ⟨swap.tokens.flatMap Token.bytes⟩ :=
  Script.build_of_writes swap.writes_tokens swap.size_tokens_le

theorem ofScript_tokens (swap : AtomicSwap) :
    ofScript 0 (swap.tokens.flatMap Token.bytes) = .ok (ofTokens? swap.tokens) := by
  have read : tokenize 0 (swap.tokens.flatMap Token.bytes) = .ok swap.tokens :=
    Script.tokenize_of_writes swap.writes_tokens
  rw [ofScript, if_neg (by decide), read]
  rfl

theorem ofTokens?_tokens {swap : AtomicSwap} (sized : swap.secretSize = 32)
    (short : (Number.encode swap.lockTime.toInt).length ≤ maxLockTimeLength) :
    ofTokens? swap.tokens = if swap.lockTime = -1 then none else some swap := by
  have length : (Number.encode (32 : Int64).toInt).length ≤ maxOperandLength :=
    (Number.length_encode_le_iff (by decide)).mpr (by decide)
  have size := Token.integer?_ofInt length
  rw [if_neg (by decide)] at size
  have lock := Token.integer?_ofInt short
  obtain ⟨recipient, refund, secretHash, secretSize, lockTime⟩ := swap
  simp only at sized lock
  subst sized
  simp only [ofTokens?, tokens]
  rw [if_pos ⟨rfl, rfl, rfl⟩, size, lock]
  by_cases negative : lockTime = -1
  · rw [if_pos negative, if_pos negative]
    rfl
  · rw [if_neg negative, if_neg negative]
    simp only [Bytes.exactly?_val]
    rfl

/-- Within the length that lock times may have, a contract is read back as the swap it was made
from, except when the lock time is -1. -/
theorem ofScript_contract {swap : AtomicSwap} (sized : swap.secretSize = 32) :
    ((Number.encode swap.lockTime.toInt).length ≤ 5 ↔ swap.lockTime.toInt.natAbs < 2 ^ 39) ∧
      ((Number.encode swap.lockTime.toInt).length ≤ 5 →
        ∃ script, swap.contract = .ok script ∧
          ofScript 0 script.bytes = .ok (if swap.lockTime = -1 then none else some swap)) := by
  constructor
  · exact Number.length_encode_le_iff (by decide)
  · intro short
    refine ⟨_, swap.contract_eq, ?_⟩
    rw [ofScript_tokens, ofTokens?_tokens sized short]

/-- A swap with hashes of equal bytes. -/
def sample (lockTime : Int64) : AtomicSwap where
  recipient := ⟨List.replicate 20 1, List.length_replicate⟩
  refund := ⟨List.replicate 20 2, List.length_replicate⟩
  secretHash := ⟨List.replicate 32 3, List.length_replicate⟩
  secretSize := 32
  lockTime := lockTime

theorem ofScript_contract_sample :
    (sample (-300)).secretSize = 32 ∧
      ∃ script, (sample (-300)).contract = .ok script ∧
        ofScript 0 script.bytes = .ok (some (sample (-300))) := by
  have sized : (sample (-300)).secretSize = 32 := rfl
  have short : (Number.encode (sample (-300)).lockTime.toInt).length ≤ 5 :=
    (Number.length_encode_le_iff (by decide)).mpr (by decide)
  exact ⟨sized, (ofScript_contract sized).2 short⟩

theorem ofScript_contract_negativeOne :
    ¬ ∀ swap : AtomicSwap, swap.secretSize = 32 →
      (Number.encode swap.lockTime.toInt).length ≤ 5 →
        ∃ script, swap.contract = .ok script ∧
          ofScript 0 script.bytes = .ok (some swap) := by
  intro inverse
  have sized : (sample (-1)).secretSize = 32 := rfl
  have short : (Number.encode (sample (-1)).lockTime.toInt).length ≤ 5 :=
    (Number.length_encode_le_iff (by decide)).mpr (by decide)
  obtain ⟨script, built, found⟩ := inverse (sample (-1)) sized short
  rw [contract_eq] at built
  cases built
  rw [ofScript_tokens, ofTokens?_tokens sized short,
    if_pos (show (sample (-1)).lockTime = -1 from rfl)] at found
  cases found

end LockingScript.AtomicSwap
