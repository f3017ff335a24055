import LockingScript.Proofs.Output.AtomicSwap
import LockingScript.Proofs.Token.Integer

/-!
# A swap has one contract

The reader of contracts accepts each swap in one spelling. It is the contract that is made for the
swap, except that the lock time -1 has to be spelled out there.
-/

namespace LockingScript.AtomicSwap

def beforeLockTime (swap : AtomicSwap) : List Token := swap.tokens.take 11

def afterLockTime (swap : AtomicSwap) : List Token := swap.tokens.drop 12

/-- The tokens of the contract with the lock time as it is read. -/
def readableTokens (swap : AtomicSwap) : List Token :=
  swap.beforeLockTime ++ .numeral swap.lockTime :: swap.afterLockTime

/-- Where the lock time begins in a contract whose secret has the required size. -/
def lockTimeIndex : Nat := 64

variable {swap : AtomicSwap} {tokens : List Token} {script : Bytes}

theorem tokens_eq (swap : AtomicSwap) :
    swap.tokens = swap.beforeLockTime ++ .ofInt swap.lockTime :: swap.afterLockTime := rfl

theorem eq_readableTokens_of_ofTokens? (wellFormed : ∀ t ∈ tokens, t.WellFormed)
    (found : ofTokens? tokens = some swap) :
    swap.secretSize = 32 ∧ (Number.encode swap.lockTime.toInt).length ≤ maxLockTimeLength ∧
      tokens = swap.readableTokens := by
  unfold ofTokens? at found
  split at found
  · rename_i t0 t1 size t3 t4 secret t6 t7 t8 recipient t10 lock t12 t13 t14 t15 refund t17 t18 t19
    split at found
    · rename_i shape
      simp only [List.map_cons, List.map_nil, opening, middle, closing, List.cons.injEq,
        and_true] at shape
      obtain ⟨⟨o0, o1⟩, ⟨o3, o4, secretOpcode, o6, o7, o8, recipientOpcode, o10⟩,
        o12, o13, o14, o15, refundOpcode, o17, o18, o19⟩ := shape
      simp only [List.forall_mem_cons] at wellFormed
      obtain ⟨f0, f1, sizeFormed, f3, f4, -, f6, f7, f8, -, f10, lockFormed, f12, f13, f14, f15, -,
        f17, f18, f19, -⟩ := wellFormed
      simp only [Option.bind_eq_bind, Option.bind_eq_some_iff, Option.filter_eq_some_iff,
        Bytes.exactly?_eq_some_iff, Option.pure_def, Option.some.injEq, beq_iff_eq] at found
      obtain ⟨_, ⟨sizeRead, rfl⟩, lockTime, lockRead, recipientHash, recipientData, refundHash,
        refundData, secretHash, secretData, rfl⟩ := found
      obtain ⟨-, sizeToken⟩ :=
        (Token.integer?_eq_some_iff sizeFormed (by decide) (by decide)).mp sizeRead
      obtain ⟨short, lockToken⟩ :=
        (Token.integer?_eq_some_iff lockFormed (by decide) (by decide)).mp lockRead
      refine ⟨rfl, short, ?_⟩
      have secretToken : secret = ⟨.data 32, secretHash.val⟩ := by
        rw [← secretOpcode, ← secretData]
      have recipientToken : recipient = ⟨.data 20, recipientHash.val⟩ := by
        rw [← recipientOpcode, ← recipientData]
      have refundToken : refund = ⟨.data 20, refundHash.val⟩ := by
        rw [← refundOpcode, ← refundData]
      have plain {t : Token} {op : Opcode} (formed : t.WellFormed) (opcode : t.opcode = op)
          (rule : op.lengthRule = .fixed 0) := Token.eq_of_fixed_zero formed opcode rule
      rw [plain f0 o0 rfl, plain f1 o1 rfl, sizeToken, plain f3 o3 rfl, plain f4 o4 rfl,
        secretToken, plain f6 o6 rfl, plain f7 o7 rfl, plain f8 o8 rfl, recipientToken,
        plain f10 o10 rfl, lockToken, plain f12 o12 rfl, plain f13 o13 rfl, plain f14 o14 rfl,
        plain f15 o15 rfl, refundToken, plain f17 o17 rfl, plain f18 o18 rfl, plain f19 o19 rfl]
      rfl
    · cases found
  · cases found

theorem readable_of_ofScript (found : ofScript 0 script = .ok (some swap)) :
    swap.secretSize = 32 ∧ (Number.encode swap.lockTime.toInt).length ≤ maxLockTimeLength ∧
      script = swap.readableTokens.flatMap Token.bytes := by
  rw [ofScript, if_neg (by decide), Except.ok.injEq] at found
  cases tokenized : tokenize 0 script with
  | error fault =>
      rw [tokenized] at found
      cases found
  | ok tokens =>
      rw [tokenized] at found
      obtain ⟨wellFormed, rfl⟩ := tokenize_eq_ok_iff.mp tokenized
      obtain ⟨sized, short, same⟩ := eq_readableTokens_of_ofTokens? wellFormed found
      exact ⟨sized, short, by rw [same]⟩

theorem length_beforeLockTime (sized : swap.secretSize = 32) :
    (swap.beforeLockTime.flatMap Token.bytes).length = lockTimeIndex := by
  have size : (Token.ofInt 32).size = 2 := by decide +kernel
  rw [Token.length_flatMap_bytes]
  simp (disch := decide) only [beforeLockTime, tokens, List.take_succ_cons, List.take_zero,
    List.map_cons, List.map_nil, List.sum_cons, List.sum_nil, Token.size_plain, Token.size_direct,
    swap.secretHash.property, swap.recipient.property, sized, size]
  rfl

theorem bytes_of_negative (sized : swap.secretSize = 32) (negative : swap.lockTime = -1) :
    ∃ contract, swap.contract = .ok contract ∧ contract.bytes[lockTimeIndex]? = some 0x4f ∧
      swap.readableTokens.flatMap Token.bytes =
        contract.bytes.take lockTimeIndex ++ [0x01, 0x81] ++
          contract.bytes.drop (lockTimeIndex + 1) := by
  have written : (Token.ofInt (-1)).bytes = [0x4f] := by decide
  have spelled : (Token.numeral (-1)).bytes = [0x01, 0x81] := by decide
  have made := swap.contract_eq
  have index := length_beforeLockTime sized
  rw [tokens_eq, List.flatMap_append, List.flatMap_cons, negative, written] at made
  rw [readableTokens, List.flatMap_append, List.flatMap_cons, negative, spelled]
  generalize swap.beforeLockTime.flatMap Token.bytes = before at made index
  generalize swap.afterLockTime.flatMap Token.bytes = after at made
  refine ⟨_, made, ?_, ?_⟩
  · rw [List.getElem?_append_right (Nat.le_of_eq index), index, Nat.sub_self]
    rfl
  · have rest : (before ++ ([0x4f] ++ after)).drop (lockTimeIndex + 1) = after := by
      rw [← List.append_assoc]
      exact List.drop_left' (by rw [List.length_append, index]; rfl)
    rw [rest, List.take_left' index, List.append_assoc]

/-- A recognised contract is the one that is made for the swap, except that a lock time of -1 is
spelled out. So no two scripts are recognised as the same swap. -/
theorem contract_of_ofScript (found : ofScript 0 script = .ok (some swap)) :
    swap.secretSize = 32 ∧ swap.lockTime.toInt.natAbs < 2 ^ 39 ∧
      (swap.lockTime ≠ -1 → swap.contract = .ok ⟨script⟩) ∧
      (swap.lockTime = -1 → ∃ contract, swap.contract = .ok contract ∧
        contract.bytes[lockTimeIndex]? = some 0x4f ∧
        script = contract.bytes.take lockTimeIndex ++ [0x01, 0x81] ++
          contract.bytes.drop (lockTimeIndex + 1)) ∧
      ∀ other, ofScript 0 other = .ok (some swap) → other = script := by
  obtain ⟨sized, short, rfl⟩ := readable_of_ofScript found
  refine ⟨sized, (Number.length_encode_le_iff (by decide)).mp short, ?_, ?_, ?_⟩
  · intro other
    have same : swap.readableTokens = swap.tokens := by
      rw [readableTokens, Token.numeral, if_neg other, tokens_eq]
    rw [same, contract_eq]
  · exact bytes_of_negative sized
  · intro other recognised
    exact (readable_of_ofScript recognised).2.2

/-- A recognised contract with lock time -1. -/
def spelledOut : Bytes :=
  [0x63, 0x82, 0x01, 0x20, 0x88, 0xc0, 0x20] ++ List.replicate 32 3 ++
    [0x88, 0x76, 0xa9, 0x14] ++ List.replicate 20 1 ++
    [0x67, 0x01, 0x81, 0xb1, 0x75, 0x76, 0xa9, 0x14] ++ List.replicate 20 2 ++ [0x68, 0x88, 0xac]

theorem contract_of_ofScript_spelledOut :
    ofScript 0 spelledOut = .ok (some (sample (-1))) ∧
      ∃ contract, (sample (-1)).contract = .ok contract ∧
        spelledOut = contract.bytes.take lockTimeIndex ++ [0x01, 0x81] ++
          contract.bytes.drop (lockTimeIndex + 1) := by
  have found : ofScript 0 spelledOut = .ok (some (sample (-1))) := by decide +kernel
  obtain ⟨-, -, -, spelled, -⟩ := contract_of_ofScript found
  obtain ⟨contract, made, -, same⟩ := spelled rfl
  exact ⟨found, contract, made, same⟩

end LockingScript.AtomicSwap
