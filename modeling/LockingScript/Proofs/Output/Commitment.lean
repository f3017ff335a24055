import LockingScript.Output.Stake
import LockingScript.Proofs.Number.Range
import LockingScript.Proofs.Output.NullData

/-!
# Ticket commitments

A ticket commits to a hash, an amount and the fee limits. The top bit of the written amount says
that the hash is the hash of a script. A negative amount has that bit too, so it is written as the
amount of a script hash, and two amounts for one script hash are told apart by their other bits
only. All else can be read off the script, and if the amounts are not negative everything can.
-/

namespace LockingScript

/-- Setting the top bit of a byte. -/
theorem toNat_or_mark (b : UInt8) : (b ||| 0x80).toNat = b.toNat % 128 + 128 := by
  have rest : (b ||| 0x80) &&& 0x7f = b &&& 0x7f := by
    rw [Number.or_and_distrib]
    exact UInt8.or_zero
  have low := congrArg UInt8.toNat rest
  rw [Number.toNat_and, Number.toNat_and] at low
  have high : 128 ≤ (b ||| 0x80).toNat := by
    rw [UInt8.toNat_or]
    exact Nat.right_le_or
  have bound := (b ||| 0x80).toNat_lt
  omega

/-- A mark of 128 can be told from a rest below it. -/
theorem add_mark_eq_iff {m n : Nat} {P Q : Prop} [Decidable P] [Decidable Q] (first : m < 128)
    (second : n < 128) :
    (m + if P then 128 else 0) = (n + if Q then 128 else 0) ↔ m = n ∧ (P ↔ Q) := by
  by_cases agree : P ↔ Q
  · rw [and_iff_left agree, if_congr agree rfl rfl, Nat.add_right_cancel_iff]
  · grind

section Words

variable {amount paid : Int64}

theorem toNat_toUInt64_inj : amount.toUInt64.toNat = paid.toUInt64.toNat ↔ amount = paid := by
  rw [UInt64.toNat_inj]
  exact ⟨fun same => Int64.toBitVec_inj.mp (congrArg UInt64.toBitVec same), congrArg _⟩

/-- Negative numbers are those whose top bit is set. -/
theorem neg_iff_le_toNat : amount < 0 ↔ 0x8000000000000000 ≤ amount.toUInt64.toNat := by
  have signed : amount.toInt =
      if 2 * amount.toUInt64.toNat < 2 ^ 64 then (amount.toUInt64.toNat : Int)
      else amount.toUInt64.toNat - (2 ^ 64 : Nat) :=
    BitVec.toInt_eq_toNat_cond amount.toBitVec
  have bound := amount.toUInt64.toNat_lt
  rw [Int64.lt_iff_toInt_lt, Int64.toInt_zero, signed]
  split <;> omega

/-- Clearing the top bit of a number. -/
theorem toNat_and_maxValue :
    (amount &&& Int64.maxValue).toUInt64.toNat = amount.toUInt64.toNat % 0x8000000000000000 := by
  have mask : Int64.maxValue.toUInt64.toNat = 2 ^ 63 - 1 := by decide
  rw [Int64.toUInt64_and, UInt64.toNat_and, mask, Nat.and_two_pow_sub_one_eq_mod]

theorem and_maxValue_eq_iff :
    amount &&& Int64.maxValue = paid &&& Int64.maxValue ↔
      amount.toUInt64.toNat % 0x8000000000000000 = paid.toUInt64.toNat % 0x8000000000000000 := by
  rw [← toNat_toUInt64_inj, toNat_and_maxValue, toNat_and_maxValue]

theorem and_maxValue_of_nonneg (nonneg : 0 ≤ amount) : amount &&& Int64.maxValue = amount := by
  have small : ¬ 0x8000000000000000 ≤ amount.toUInt64.toNat := fun large =>
    Int64.not_lt.mpr nonneg (neg_iff_le_toNat.mpr large)
  rw [← toNat_toUInt64_inj, toNat_and_maxValue, Nat.mod_eq_of_lt (Nat.lt_of_not_le small)]

end Words

namespace HashAddress

/-- The hash alone. -/
def value : HashAddress → BytesN 20
  | pubKeyHash hash => hash
  | scriptHash hash => hash

def isScript : HashAddress → Bool
  | pubKeyHash _ => false
  | scriptHash _ => true

theorem eq_of_value_of_isScript {hash other : HashAddress} (value : hash.value = other.value)
    (kind : hash.isScript = other.isScript) : hash = other := by
  cases hash with
  | pubKeyHash first =>
      cases other with
      | pubKeyHash second => exact congrArg pubKeyHash value
      | scriptHash second => cases kind
  | scriptHash first =>
      cases other with
      | pubKeyHash second => cases kind
      | scriptHash second => exact congrArg scriptHash value

end HashAddress

namespace Script

section Data

variable {isScript isOther : Bool} {amount paid : Int64} {limits fees : UInt16}
  {hash other : BytesN 20}

/-- The last byte of a written amount. -/
def markedByte (isScript : Bool) (amount : Int64) : UInt8 :=
  let high := UInt8.ofNat (amount.toUInt64.toNat >>> 56)
  if isScript then high ||| 0x80 else high

theorem toNat_markedByte :
    (markedByte isScript amount).toNat =
      amount.toUInt64.toNat / 0x100000000000000 % 128 +
        if isScript = true ∨ amount < 0 then 128 else 0 := by
  have bound := amount.toUInt64.toNat_lt
  have high : (UInt8.ofNat (amount.toUInt64.toNat >>> 56)).toNat =
      amount.toUInt64.toNat / 0x100000000000000 := by
    rw [UInt8.toNat_ofNat', Nat.shiftRight_eq_div_pow]
    omega
  cases isScript with
  | true => rw [markedByte, if_pos rfl, if_pos (.inl rfl), toNat_or_mark, high]
  | false =>
      simp only [markedByte, Bool.false_eq_true, if_false, false_or, high, neg_iff_le_toNat]
      split <;> omega

/-- The top bit of a written amount is set for a script hash and for a negative amount. -/
theorem markedByte_and_ne_zero_iff :
    markedByte isScript amount &&& 0x80 ≠ 0 ↔ isScript = true ∨ amount < 0 := by
  have rest : amount.toUInt64.toNat / 0x100000000000000 % 128 < 128 := Nat.mod_lt _ (by decide)
  rw [Number.and_ne_zero_iff, toNat_markedByte]
  by_cases marked : isScript = true ∨ amount < 0
  · rw [if_pos marked]
    exact iff_of_true (Nat.le_add_left _ _) marked
  · rw [if_neg marked]
    exact iff_of_false (by omega) marked

theorem commitmentData_eq :
    commitmentData hash isScript amount limits =
      hash.val ++ (LittleEndian.encode 7 amount.toUInt64.toNat ++
        (markedByte isScript amount :: LittleEndian.encode 2 limits.toNat)) := by
  simp [commitmentData, markedByte]

theorem length_commitmentData : (commitmentData hash isScript amount limits).length = 30 := by
  simp [commitmentData_eq, hash.property]

theorem getElem?_commitmentData :
    (commitmentData hash isScript amount limits)[27]? = some (markedByte isScript amount) := by
  rw [commitmentData_eq, List.getElem?_append_right (by simp [hash.property]),
    List.getElem?_append_right (by simp [hash.property])]
  simp [hash.property]

theorem encode_limits_eq_iff :
    LittleEndian.encode 2 limits.toNat = LittleEndian.encode 2 fees.toNat ↔ limits = fees := by
  rw [LittleEndian.encode_eq_iff, ← UInt16.toNat_inj]
  have first := limits.toNat_lt
  have second := fees.toNat_lt
  omega

/-- The written amount tells the amount but for its top bit, and whether that bit is set. -/
theorem written_amount_eq_iff :
    LittleEndian.encode 7 amount.toUInt64.toNat = LittleEndian.encode 7 paid.toUInt64.toNat ∧
        markedByte isScript amount = markedByte isOther paid ↔
      amount &&& Int64.maxValue = paid &&& Int64.maxValue ∧
        (isScript = true ∨ amount < 0 ↔ isOther = true ∨ paid < 0) := by
  -- The lower 63 bits are the seven lower bytes and what the mark leaves of the last one.
  have split (n : Nat) : n % 0x8000000000000000 =
      n % 0x100000000000000 + 0x100000000000000 * (n / 0x100000000000000 % 128) := by
    have whole : 0x8000000000000000 = 0x100000000000000 * 128 := by decide
    rw [whole, Nat.mod_mul]
  have rest (n : Nat) : n / 0x100000000000000 % 128 < 128 := Nat.mod_lt _ (by decide)
  rw [LittleEndian.encode_eq_iff, ← UInt8.toNat_inj, toNat_markedByte, toNat_markedByte,
    add_mark_eq_iff (rest _) (rest _), and_maxValue_eq_iff, split, split, ← and_assoc]
  refine and_congr_left fun _ => ?_
  omega

/-- What a commitment is written for can be read off its data, but for the top bit of the amount,
which is the mark of a script hash as well. -/
theorem commitmentData_eq_iff :
    commitmentData hash isScript amount limits = commitmentData other isOther paid fees ↔
      hash = other ∧ limits = fees ∧ amount &&& Int64.maxValue = paid &&& Int64.maxValue ∧
        (isScript = true ∨ amount < 0 ↔ isOther = true ∨ paid < 0) := by
  have hashes : hash.val.length = other.val.length := hash.property.trans other.property.symm
  have amounts : (LittleEndian.encode 7 amount.toUInt64.toNat).length =
      (LittleEndian.encode 7 paid.toUInt64.toNat).length := by simp
  rw [← written_amount_eq_iff, ← encode_limits_eq_iff, commitmentData_eq, commitmentData_eq,
    Subtype.ext_iff]
  constructor
  · intro same
    obtain ⟨sameHash, same⟩ := List.append_inj same hashes
    obtain ⟨low, same⟩ := List.append_inj same amounts
    obtain ⟨high, sameLimits⟩ := List.cons.inj same
    exact ⟨sameHash, sameLimits, low, high⟩
  · rintro ⟨sameHash, sameLimits, low, high⟩
    rw [sameHash, sameLimits, low, high]

end Data

variable {hash other : HashAddress} {amount paid : Int64} {limits fees : UInt16}

/-- The data of a commitment to the hash. -/
def commitmentPayload (hash : HashAddress) (amount : Int64) (limits : UInt16) : BytesN 30 :=
  ⟨commitmentData hash.value hash.isScript amount limits, length_commitmentData⟩

section Payload

variable (payload : BytesN 30)

theorem length_payload_le : payload.val.length ≤ maxNullDataSize := by
  rw [payload.property]
  decide

theorem returningTokens_payload :
    Form.returningTokens payload.val = [⟨.opReturn, []⟩, ⟨.data 30, payload.val⟩] := by
  rw [Form.returningTokens, Token.ofData_bytesN payload (by decide) (by decide)]

theorem tokenize_payload :
    tokenize 0 ((Form.returningTokens payload.val).flatMap Token.bytes) =
      .ok [⟨.opReturn, []⟩, ⟨.data 30, payload.val⟩] := by
  rw [← returningTokens_payload]
  exact tokenize_returning (Nat.le_trans (length_payload_le payload) (by decide))

theorem classify_payload (policy : Policy) :
    classify 0 ((Form.returningTokens payload.val).flatMap Token.bytes) policy =
      ⟨.nullData, none⟩ := by
  have other : payload.val ≠ [0x81] := by
    intro same
    have length := payload.property
    rw [same] at length
    exact absurd length (by decide)
  have form := Form.ofTokens_returningTokens (length_payload_le payload) policy
  rw [returningTokens_payload, if_neg other] at form
  rw [classify_of_tokenize (tokenize_payload payload), form]
  rfl

end Payload

theorem ticketCommitment_address (hash : HashAddress) (amount : Int64) (limits : UInt16) :
    ticketCommitment hash.address amount limits =
      .ok ⟨(Form.returningTokens (commitmentPayload hash amount limits).val).flatMap
        Token.bytes⟩ := by
  have commitment : ticketCommitment hash.address amount limits =
      returning (commitmentPayload hash amount limits).val := by
    cases hash <;> rfl
  rw [commitment, returning_eq (Nat.le_trans (length_payload_le _) (by decide))]

/-- Commitments are made to hashes of keys for ECDSA and of scripts, and to nothing else. -/
theorem exists_ticketCommitment_iff {address : Address} :
    (∃ script, ticketCommitment address amount limits = .ok script) ↔
      ∃ hash : HashAddress, hash.address = address := by
  constructor
  · rintro ⟨script, made⟩
    -- The other addresses are refused, so `made` rules them out.
    match address with
    | .pubKeyHash hash .ecdsa => exact ⟨.pubKeyHash hash, rfl⟩
    | .scriptHash hash => exact ⟨.scriptHash hash, rfl⟩
  · rintro ⟨hash, rfl⟩
    exact ⟨_, ticketCommitment_address hash amount limits⟩

theorem ticketCommitment_eq_iff {script found : Script}
    (made : ticketCommitment hash.address amount limits = .ok script)
    (written : ticketCommitment other.address paid fees = .ok found) :
    script = found ↔ commitmentPayload hash amount limits = commitmentPayload other paid fees := by
  rw [ticketCommitment_address, Except.ok.injEq] at made written
  subst made written
  refine ⟨fun same => ?_, fun same => by rw [same]⟩
  have read := tokenize_payload (commitmentPayload hash amount limits)
  rw [Script.mk.inj same, tokenize_payload] at read
  simpa [Subtype.ext_iff] using read.symm

/-- Scripts of commitments are equal exactly when they are made for the same hash and limits, with
amounts that differ in no more than the top bit, and with the same top bit as written. -/
theorem commitments_eq_iff {script found : Script}
    (made : ticketCommitment hash.address amount limits = .ok script)
    (written : ticketCommitment other.address paid fees = .ok found) :
    script = found ↔
      hash.value = other.value ∧ limits = fees ∧
        amount &&& Int64.maxValue = paid &&& Int64.maxValue ∧
        (hash.isScript = true ∨ amount < 0 ↔ other.isScript = true ∨ paid < 0) := by
  rw [ticketCommitment_eq_iff made written, commitmentPayload, commitmentPayload, Subtype.mk.injEq,
    commitmentData_eq_iff]

/-- Commitments for amounts that are not negative tell everything they are made for. -/
theorem inputs_eq_of_nonneg {script found : Script}
    (made : ticketCommitment hash.address amount limits = .ok script)
    (written : ticketCommitment other.address paid fees = .ok found) (nonneg : 0 ≤ amount)
    (also : 0 ≤ paid) (same : script = found) : hash = other ∧ amount = paid ∧ limits = fees := by
  obtain ⟨value, sameLimits, sameAmount, kind⟩ := (commitments_eq_iff made written).mp same
  rw [and_maxValue_of_nonneg nonneg, and_maxValue_of_nonneg also] at sameAmount
  rw [or_iff_left (Int64.not_lt.mpr nonneg), or_iff_left (Int64.not_lt.mpr also)] at kind
  exact ⟨HashAddress.eq_of_value_of_isScript value (Bool.eq_iff_iff.mpr kind), sameAmount,
    sameLimits⟩

/-- Commitments are made to hashes of keys for ECDSA and of scripts, whatever the amount and the
limits. A commitment is `RETURN` and one direct push of 30 bytes, and is recognised as null data.
The top bit of the written amount is set for a script hash and for a negative amount, and
commitments are equal exactly when their hashes and limits are equal, their amounts are equal but
for the top bit, and this bit is written in the same way. So if the amounts are not negative, the
bit marks the hashes of scripts, and no two inputs have the same commitment. -/
theorem ticketCommitment_unambiguous (hash other : HashAddress) (amount paid : Int64)
    (limits fees : UInt16) :
    (∀ address : Address,
      (∃ script, ticketCommitment address amount limits = .ok script) ↔
        ∃ named : HashAddress, named.address = address) ∧
    ∃ script found : Script,
      ticketCommitment hash.address amount limits = .ok script ∧
      ticketCommitment other.address paid fees = .ok found ∧
      (∃ (payload : BytesN 30) (mark : UInt8),
        tokenize 0 script.bytes = .ok [⟨.opReturn, []⟩, ⟨.data 30, payload.val⟩] ∧
        (∀ policy, classify 0 script.bytes policy = ⟨.nullData, none⟩) ∧
        payload.val[27]? = some mark ∧
        (mark &&& 0x80 ≠ 0 ↔ hash.isScript = true ∨ amount < 0)) ∧
      (script = found ↔
        hash.value = other.value ∧ limits = fees ∧
          amount &&& Int64.maxValue = paid &&& Int64.maxValue ∧
          (hash.isScript = true ∨ amount < 0 ↔ other.isScript = true ∨ paid < 0)) ∧
      (0 ≤ amount → 0 ≤ paid → script = found →
        hash = other ∧ amount = paid ∧ limits = fees) := by
  have made := ticketCommitment_address hash amount limits
  have written := ticketCommitment_address other paid fees
  refine ⟨fun address => exists_ticketCommitment_iff, _, _, made, written, ?_,
    commitments_eq_iff made written, inputs_eq_of_nonneg made written⟩
  exact ⟨_, _, tokenize_payload _, classify_payload _, getElem?_commitmentData,
    markedByte_and_ne_zero_iff⟩

def sampleHash : BytesN 20 :=
  ⟨[0xf5, 0x91, 0x61, 0x58, 0xe3, 0xe2, 0xc4, 0x55, 0x1c, 0x17, 0x96, 0x70, 0x8d, 0xb8, 0x36, 0x72,
    0x07, 0xed, 0x13, 0xbb], by decide⟩

/-- Commits to the hash of a script with the amount 1000 and the limits 10. -/
def sampleCommitment : Script :=
  ⟨[0x6a, 0x1e] ++ sampleHash.val ++
    [0xe8, 0x03, 0x00, 0x00, 0x00, 0x00, 0x00, 0x80, 0x0a, 0x00]⟩

/-- The commitment is not one to the hash of a key, but with the amount 2 ^ 63 less it is the
same. -/
theorem ticketCommitment_unambiguous_sample :
    (0 : Int64) ≤ 1000 ∧
      ticketCommitment (HashAddress.scriptHash sampleHash).address 1000 10 = .ok sampleCommitment ∧
      classify 0 sampleCommitment.bytes .withTreasury = ⟨.nullData, none⟩ ∧
      ticketCommitment (HashAddress.pubKeyHash sampleHash).address 1000 10 ≠ .ok sampleCommitment ∧
      ticketCommitment (HashAddress.scriptHash sampleHash).address (Int64.minValue + 1000) 10 =
        .ok sampleCommitment := by
  have nonneg : (0 : Int64) ≤ 1000 := by decide
  obtain ⟨-, script, key, made, keyMade, ⟨-, -, -, nullData, -⟩, -, told⟩ :=
    ticketCommitment_unambiguous (.scriptHash sampleHash) (.pubKeyHash sampleHash) 1000 1000 10 10
  obtain ⟨-, _, less, again, lessMade, -, equal, -⟩ :=
    ticketCommitment_unambiguous (.scriptHash sampleHash) (.scriptHash sampleHash) 1000
      (Int64.minValue + 1000) 10 10
  obtain rfl : script = sampleCommitment :=
    Except.ok.inj (made.symm.trans (by decide))
  rw [made, Except.ok.injEq] at again
  subst again
  refine ⟨nonneg, made, nullData _, ?_, ?_⟩
  · intro written
    rw [keyMade, Except.ok.injEq] at written
    cases (told nonneg nonneg written.symm).1
  · rw [lessMade, equal.mpr (by decide)]

/-- A commitment to the hash of a key is marked like one to the hash of a script if the amount is
negative, and is the same as one to a script hash for another amount. -/
theorem ticketCommitment_ambiguous :
    (¬ ∀ (hash : HashAddress) (amount : Int64) (limits : UInt16) (script : Script),
      ticketCommitment hash.address amount limits = .ok script →
      ∃ (payload : BytesN 30) (mark : UInt8),
        tokenize 0 script.bytes = .ok [⟨.opReturn, []⟩, ⟨.data 30, payload.val⟩] ∧
        (∀ policy, classify 0 script.bytes policy = ⟨.nullData, none⟩) ∧
        payload.val[27]? = some mark ∧ (mark &&& 0x80 ≠ 0 ↔ hash.isScript = true)) ∧
    ¬ ∀ (hash other : HashAddress) (amount paid : Int64) (limits fees : UInt16) (script : Script),
      ticketCommitment hash.address amount limits = .ok script →
      ticketCommitment other.address paid fees = .ok script →
      hash = other ∧ amount = paid ∧ limits = fees := by
  have made := ticketCommitment_address (.pubKeyHash sampleHash) (-1) 0
  constructor
  · intro marked
    obtain ⟨payload, mark, read, -, found, kind⟩ := marked _ _ _ _ made
    rw [tokenize_payload] at read
    obtain rfl : commitmentPayload (.pubKeyHash sampleHash) (-1) 0 = payload := by
      simpa [Subtype.ext_iff] using read
    obtain rfl : markedByte false (-1) = mark :=
      Option.some.inj (getElem?_commitmentData.symm.trans found)
    exact absurd (kind.mp (markedByte_and_ne_zero_iff.mpr (.inr (by decide)))) (by decide)
  · intro told
    have written := ticketCommitment_address (.scriptHash sampleHash) Int64.maxValue 0
    rw [← (commitments_eq_iff made written).mpr (by decide)] at written
    cases (told _ _ _ _ _ _ _ made written).1

end Script

end LockingScript
