import LockingScript.Proofs.Output.MultiSigAgreement
import LockingScript.Proofs.Token.Shape

/-!
# Other spellings of a push

The same data can be pushed by several opcodes. The keys of a multisig script and the data behind
`RETURN` may be pushed by any of them. All other standard forms hold one push, of a key or a hash,
and take it as a direct one: with a length prefix the script has no standard form, because the
number of tokens and the last one leave no other form to it.
-/

namespace LockingScript

theorem Opcode.smallInt?_of_isPush {op : Opcode} (push : op.IsPush) (other : op ≠ zero) :
    op.smallInt? = none := by
  rcases isPush_cases push with ⟨n, direct, rfl⟩ | rfl | rfl | rfl
  · have pos : 0 < n := by
      apply Nat.pos_of_ne_zero
      rintro rfl
      exact other rfl
    exact smallInt?_data direct pos
  · rfl
  · rfl
  · rfl

theorem Token.wellFormed_of_isCounted {op : Opcode} {data : Bytes} (counted : op.IsCounted)
    (short : data.length < 256) : (Token.mk op data).WellFormed := by
  rcases counted with rfl | rfl | rfl
  · exact short
  · exact Nat.lt_trans short (by decide : 256 < 256 ^ 2)
  · exact Nat.lt_trans short (by decide : 256 < 256 ^ 4)

/-- The tokens, with the data of the one in the middle behind another opcode. -/
def respelled (front : List Token) (t : Token) (back : List Token) (op : Opcode) : List Token :=
  front ++ ⟨op, t.data⟩ :: back

/-- The script of the tokens, with the data of the one in the middle behind another opcode. -/
def respell (front : List Token) (t : Token) (back : List Token) (op : Opcode) : Bytes :=
  (respelled front t back op).flatMap Token.bytes

section

variable {front back : List Token} {t : Token} {op : Opcode}

theorem wellFormed_respelled (wellFormed : ∀ u ∈ front ++ t :: back, u.WellFormed)
    (carries : (Token.mk op t.data).WellFormed) :
    ∀ u ∈ respelled front t back op, u.WellFormed := by
  simp only [respelled, List.forall_mem_append, List.forall_mem_cons] at wellFormed ⊢
  exact ⟨wellFormed.1, carries, wellFormed.2.2⟩

theorem tokenize_respell {version : UInt16} {script : Bytes}
    (tokenized : tokenize version script = .ok (front ++ t :: back))
    (carries : (Token.mk op t.data).WellFormed) :
    version = 0 ∧ tokenize version (respell front t back op) = .ok (respelled front t back op) := by
  obtain rfl : version = 0 := by
    by_contra other
    rw [tokenize_of_unsupported other, Except.ok.injEq] at tokenized
    simp at tokenized
  have wellFormed := wellFormed_respelled (wellFormed_of_tokenize tokenized) carries
  exact ⟨rfl, tokenize_eq_ok_iff.mpr ⟨wellFormed, rfl⟩⟩

end

/-- A direct push of the data stands among the tokens, and no other push. -/
def PushesOnly (tokens : List Token) (data : Bytes) : Prop :=
  ∃ front n back, tokens = front ++ ⟨.data n, data⟩ :: back ∧ n ≤ 75 ∧ data.length ≤ 75 ∧
    ∀ t ∈ front ++ back, ¬ t.opcode.IsPush

namespace PushesOnly

variable {tokens : List Token} {data : Bytes}

theorem cons {first : Token} (noPush : ¬ first.opcode.IsPush) (pushes : PushesOnly tokens data) :
    PushesOnly (first :: tokens) data := by
  obtain ⟨front, n, back, rfl, direct, short, others⟩ := pushes
  exact ⟨first :: front, n, back, rfl, direct, short, List.forall_mem_cons.mpr ⟨noPush, others⟩⟩

theorem not_isCounted (pushes : PushesOnly tokens data) : ∀ t ∈ tokens, ¬ t.opcode.IsCounted := by
  obtain ⟨front, n, back, rfl, direct, -, others⟩ := pushes
  simp only [List.forall_mem_append, List.forall_mem_cons] at others ⊢
  exact ⟨fun t inFront counted => others.1 t inFront counted.isPush,
    Opcode.not_isCounted_data direct, fun t inBack counted => others.2 t inBack counted.isPush⟩

end PushesOnly

theorem SignatureScheme.not_isPush_of_mem_checkTokens (scheme : SignatureScheme) :
    ∀ t ∈ scheme.checkTokens, ¬ t.opcode.IsPush := by
  cases scheme <;> decide

theorem SignatureScheme.pushesOnly_keyTokens (scheme : SignatureScheme) {key : Bytes}
    (short : key.length ≤ 75) : PushesOnly (scheme.keyTokens key) key :=
  ⟨[], key.length, scheme.checkTokens, rfl, short, short, scheme.not_isPush_of_mem_checkTokens⟩

theorem Address.pushesOnly_paymentTokens (address : Address) :
    PushesOnly address.paymentTokens address.payload := by
  have direct {n : Nat} (b : BytesN n) (fits : n ≤ 75) : b.val.length ≤ 75 := by
    rwa [b.property]
  cases address with
  | pubKeyHash hash scheme =>
      refine .cons (by decide) (.cons (by decide) ?_)
      exact ⟨[], 20, ⟨.equalVerify, []⟩ :: scheme.checkTokens, rfl, by decide,
        direct hash (by decide),
        List.forall_mem_cons.mpr ⟨by decide, scheme.not_isPush_of_mem_checkTokens⟩⟩
  | scriptHash hash =>
      exact ⟨[⟨.hash160, []⟩], 20, [⟨.equal, []⟩], rfl, by decide, direct hash (by decide),
        by decide⟩
  | secpKey key =>
      rw [paymentTokens_secpKey]
      exact SignatureScheme.ecdsa.pushesOnly_keyTokens (direct key (by decide))
  | edwardsKey key =>
      rw [paymentTokens_edwardsKey]
      exact SignatureScheme.ed25519.pushesOnly_keyTokens (direct key (by decide))
  | schnorrKey key =>
      rw [paymentTokens_schnorrKey]
      exact SignatureScheme.schnorr.pushesOnly_keyTokens (direct key (by decide))

namespace Form

variable {policy : Policy} {tokens front back : List Token} {form : Form} {t : Token}
  {op : Opcode}

/-- The key or the hash that the form pays to alone. -/
def payload? : Form → Option Bytes
  | pubKey key | pubKeyAlt key _ => some key
  | pubKeyHash hash | pubKeyHashAlt hash _ | scriptHash hash => some hash
  | tagged _ (.pubKeyHash hash) | tagged _ (.scriptHash hash) => some hash
  | multiSig _ | nullData | treasuryAdd | nonStandard => none

theorem isSingle_iff_rank : form.outputClass.IsSingle ↔ form.rank ∈ [0, 1, 2, 3, 4, 7] := by
  cases form with
  | tagged tag hash => exact iff_of_true tag.isSingle_outputClass (by simp [rank])
  | _ => simp [outputClass, rank, OutputClass.IsSingle, OutputClass.unpaid]

theorem exists_pushesOnly (read : form.ReadFrom policy tokens)
    (wellFormed : ∀ t ∈ tokens, t.WellFormed) (single : form.outputClass.IsSingle) :
    ∃ data, form.payload? = some data ∧ PushesOnly tokens data := by
  rcases single.key_or_hash with isKey | hashed
  · obtain ⟨scheme, key, rfl, accepted, rfl⟩ := exists_keyForm read wellFormed isKey
    have short : key.length ≤ 75 :=
      Nat.le_trans (SignatureScheme.length_le_of_accepts accepted) (by decide)
    exact ⟨key, by cases scheme <;> rfl, scheme.pushesOnly_keyTokens short⟩
  · cases form with
    | pubKeyHash hash =>
        obtain ⟨kept, rfl, rfl⟩ := (pubKeyHash?_eq_some_iff wellFormed).mp read
        exact ⟨kept.val, rfl, Address.pushesOnly_paymentTokens _⟩
    | pubKeyHashAlt hash scheme =>
        obtain ⟨_, kept, rfl, rfl⟩ := (pubKeyHashAlt?_eq_some_iff wellFormed).mp read
        exact ⟨kept.val, rfl, Address.pushesOnly_paymentTokens _⟩
    | scriptHash hash =>
        obtain ⟨kept, rfl, rfl⟩ := (scriptHash?_eq_some_iff wellFormed).mp read
        exact ⟨kept.val, rfl, Address.pushesOnly_paymentTokens _⟩
    | tagged tag hash =>
        obtain ⟨_, paid, rfl, rfl⟩ := (tagged?_eq_some_iff wellFormed).mp read
        have noPush : ¬ tag.opcode.IsPush := by cases tag <;> decide
        have payload : (tagged tag paid.captured).payload? = some paid.address.payload := by
          cases paid <;> rfl
        exact ⟨paid.address.payload, payload, .cons noPush paid.address.pushesOnly_paymentTokens⟩
    | _ =>
        simp [outputClass, OutputClass.hashed, OutputClass.IsTagged, OutputClass.isStake] at hashed

theorem EndsWith.respelled {count : Nat} {last : Opcode} (holds : back ≠ [])
    (ends : EndsWith (front ++ t :: back) count last) :
    EndsWith (respelled front t back op) count last := by
  obtain ⟨length, opcode⟩ := ends
  obtain ⟨second, rest, rfl⟩ := List.exists_cons_of_ne_nil holds
  refine ⟨by rw [← length, LockingScript.respelled]; simp, ?_⟩
  rw [List.getLast?_append_cons, List.getLast?_cons_cons] at opcode
  rwa [LockingScript.respelled, List.getLast?_append_cons, List.getLast?_cons_cons]

/-- With a length prefix for its push, a form that holds a single push is none any more. -/
theorem ofTokens_respelled_of_single
    (wellFormed : ∀ u ∈ front ++ t :: back, u.WellFormed) (push : t.opcode.IsPush)
    (single : (ofTokens policy (front ++ t :: back)).outputClass.IsSingle)
    (counted : op.IsCounted) (carries : (Token.mk op t.data).WellFormed) :
    ofTokens policy (respelled front t back op) = nonStandard := by
  by_contra standard
  have read := readFrom_ofTokens policy (front ++ t :: back)
  have readOther := readFrom_ofTokens policy (respelled front t back op)
  have standardBefore : ofTokens policy (front ++ t :: back) ≠ nonStandard := by
    intro none
    rw [none] at single
    exact absurd single (by decide)
  obtain ⟨count, last, ends, rank⟩ := exists_endsWith_of_readFrom read standardBefore
  have holds : back ≠ [] := by
    rintro rfl
    -- A script that ends in a push could only carry data.
    have opcode := ends.2
    rw [List.getLast?_concat, Option.map_some, Option.some.injEq] at opcode
    rw [← opcode, rankOfEnding_of_push (.inl push)] at rank
    rw [isSingle_iff_rank, ← rank] at single
    exact absurd single (by decide)
  have sameRank := rank_eq_of_endsWith readOther standard (ends.respelled holds)
  have singleOther : (ofTokens policy (respelled front t back op)).outputClass.IsSingle := by
    rw [isSingle_iff_rank, sameRank, rank, ← isSingle_iff_rank]
    exact single
  obtain ⟨_, -, pushes⟩ :=
    exists_pushesOnly readOther (wellFormed_respelled wellFormed carries) singleOther
  exact pushes.not_isCounted ⟨op, t.data⟩ (by simp [respelled]) counted

theorem outputClass_eq_nullData_iff :
    (ofTokens policy tokens).outputClass = .nullData ↔ isNullData tokens = true := by
  constructor
  · intro isData
    have read := readFrom_ofTokens policy tokens
    cases found : ofTokens policy tokens with
    | nullData =>
        rw [found] at read
        exact read
    | tagged tag hash =>
        rw [found] at isData
        cases tag <;> cases isData
    | _ =>
        rw [found] at isData
        cases isData
  · intro read
    have found : nullData.ReadFrom policy tokens := read
    rw [ofTokens_eq_of_readFrom found (by simp)]
    rfl

/-- Data behind `RETURN` may be pushed by any opcode. -/
theorem ofTokens_respelled_of_nullData {ret : Token} (push : op.IsPush)
    (isData : (ofTokens policy [ret, t]).outputClass = .nullData) :
    ofTokens policy (respelled [ret] t [] op) = nullData := by
  have read := outputClass_eq_nullData_iff.mp isData
  simp only [isNullData, Bool.and_eq_true, decide_eq_true_eq] at read
  have found : nullData.ReadFrom policy (respelled [ret] t [] op) := by
    simp only [ReadFrom, respelled, List.singleton_append, isNullData, Bool.and_eq_true,
      Bool.or_eq_true, decide_eq_true_eq]
    exact ⟨⟨read.1.1, .inl push⟩, read.2⟩
  exact ofTokens_eq_of_readFrom found (by simp)

end Form

/-- A key of a multisig script may be pushed by any opcode that takes data. -/
theorem MultiSig.ofTokens?_respelled {front back : List Token} {t : Token} {op : Opcode}
    {m : MultiSig} (read : ofTokens? (front ++ t :: back) = some m) (opening : 1 ≤ front.length)
    (closing : 2 ≤ back.length) (push : op.IsPush) (other : op ≠ .zero) :
    ofTokens? (respelled front t back op) = some m := by
  obtain ⟨first, slots, count, last, spelled, layout⟩ := ofTokens?_eq_some_iff.mp read
  obtain ⟨opened, before, rfl⟩ := List.exists_cons_of_length_pos opening
  obtain ⟨after, ends, rfl, two⟩ : ∃ after ends, back = after ++ ends ∧ ends.length = 2 :=
    ⟨back.take (back.length - 2), back.drop (back.length - 2), (List.take_append_drop _ _).symm,
      by rw [List.length_drop]; omega⟩
  rw [List.cons_append, List.cons.injEq, ← List.cons_append, ← List.append_assoc] at spelled
  obtain ⟨rfl, inner⟩ := spelled
  obtain ⟨rfl, rfl⟩ := List.append_inj' inner two
  have slot : isKeySlot ⟨op, t.data⟩ = true := by
    simp [isKeySlot, push, Opcode.smallInt?_of_isPush push other]
  refine ofTokens?_eq_some_iff.mpr
    ⟨opened, before ++ ⟨op, t.data⟩ :: after, count, last, by simp [respelled], ?_⟩
  have length : (before ++ ⟨op, t.data⟩ :: after).length = (before ++ t :: after).length := by simp
  have keySlots := layout.keySlots
  simp only [List.forall_mem_append, List.forall_mem_cons] at keySlots
  exact {
    required := layout.required
    total := length ▸ layout.total
    check := layout.check
    pos := layout.pos
    required_le := length ▸ layout.required_le
    length_le := length ▸ layout.length_le
    keySlots := by
      simp only [List.forall_mem_append, List.forall_mem_cons]
      exact ⟨keySlots.1, slot, keySlots.2.2⟩
    keys := by
      rw [layout.keys]
      simp }

variable {version : UInt16} {script : Bytes} {policy : Policy} {front back : List Token}
  {t : Token} {op : Opcode}

/-- A key of a multisig script can be respelled without a trace. -/
theorem readings_respell_of_multiSig
    (tokenized : tokenize version script = .ok (front ++ t :: back))
    (isMultiSig : (classify version script policy).outputClass = .multiSig)
    (opening : 1 ≤ front.length) (closing : 2 ≤ back.length)
    (push : op.IsPush) (other : op ≠ .zero) (carries : (Token.mk op t.data).WellFormed) :
    classify version (respell front t back op) policy = classify version script policy ∧
      payees version (respell front t back op) policy = payees version script policy ∧
      MultiSig.ofScript (respell front t back op) = MultiSig.ofScript script := by
  obtain ⟨rfl, spelled⟩ := tokenize_respell tokenized carries
  rw [classify_of_tokenize tokenized, Form.outputClass_eq_multiSig_iff] at isMultiSig
  obtain ⟨m, read⟩ := isMultiSig
  have readOther := MultiSig.ofTokens?_respelled read opening closing push other
  have form {tokens : List Token} (found : MultiSig.ofTokens? tokens = some m) :
      Form.ofTokens policy tokens = .multiSig m := by
    have multiSig : (Form.multiSig m).ReadFrom policy tokens := found
    exact Form.ofTokens_eq_of_readFrom multiSig (by simp)
  refine ⟨?_, ?_, ?_⟩
  · rw [classify_of_tokenize spelled, classify_of_tokenize tokenized, form read, form readOther]
  · rw [payees_of_tokenize spelled, payees_of_tokenize tokenized, form read, form readOther]
  · rw [MultiSig.ofScript_of_tokenize spelled, MultiSig.ofScript_of_tokenize tokenized, read,
      readOther]

/-- So can the data behind `RETURN`. -/
theorem classify_respell_of_nullData {ret : Token}
    (tokenized : tokenize version script = .ok [ret, t])
    (isData : (classify version script policy).outputClass = .nullData) (push : op.IsPush)
    (carries : (Token.mk op t.data).WellFormed) :
    classify version (respell [ret] t [] op) policy = ⟨.nullData, none⟩ := by
  have split : tokenize version script = .ok ([ret] ++ t :: []) := tokenized
  obtain ⟨-, spelled⟩ := tokenize_respell split carries
  rw [classify_of_tokenize tokenized] at isData
  rw [classify_of_tokenize spelled, Form.ofTokens_respelled_of_nullData push isData]
  rfl

/-- What becomes of a standard script if one of its pushes is respelled. A key of a multisig script
can be pushed by any opcode that takes its data, and so can the data behind `RETURN`. A form with a
single payee holds one push, of its key or hash, and loses its class by any length prefix for it. -/
theorem pushes_respelled (standard : (classify version script policy).outputClass ≠ .nonStandard) :
    ∃ tokens, tokenize version script = .ok tokens ∧
      ((classify version script policy).outputClass = .multiSig →
        ∀ front key back op, tokens = front ++ key :: back → 1 ≤ front.length → 2 ≤ back.length →
          op.IsPush → op ≠ .zero → (Token.mk op key.data).WellFormed →
          classify version (respell front key back op) policy = classify version script policy ∧
            payees version (respell front key back op) policy = payees version script policy ∧
            MultiSig.ofScript (respell front key back op) = MultiSig.ofScript script) ∧
      ((classify version script policy).outputClass = .nullData →
        ∀ ret push op, tokens = [ret, push] → push.opcode.IsPush →
          op.IsPush → (Token.mk op push.data).WellFormed →
          classify version (respell [ret] push [] op) policy = ⟨.nullData, none⟩) ∧
      ((classify version script policy).outputClass ∈
            [OutputClass.pubKey, .pubKeyAlt, .pubKeyHash, .pubKeyHashAlt, .scriptHash] ∨
          (classify version script policy).outputClass.IsTagged →
        ∃ front push back, tokens = front ++ push :: back ∧
          (push.opcode.IsPush ∧ ∀ t ∈ front ++ back, ¬ t.opcode.IsPush) ∧
          (Form.ofTokens policy tokens).payload? = some push.data ∧
          ∀ op : Opcode, op.IsCounted →
            tokenize version (respell front push back op) = .ok (respelled front push back op) ∧
              classify version (respell front push back op) policy = ⟨.nonStandard, none⟩) := by
  obtain ⟨tokens, tokenized⟩ := exists_tokenize_of_standard standard
  refine ⟨tokens, tokenized, ?_, ?_, ?_⟩
  · rintro isMultiSig front key back op rfl opening closing push other carries
    exact readings_respell_of_multiSig tokenized isMultiSig opening closing push other carries
  · rintro isData ret data op rfl - push carries
    exact classify_respell_of_nullData tokenized isData push carries
  · intro paysOne
    have single : (classify version script policy).outputClass.IsSingle := by
      revert paysOne
      cases (classify version script policy).outputClass <;> decide
    rw [classify_of_tokenize tokenized] at single
    have wellFormed := wellFormed_of_tokenize tokenized
    obtain ⟨data, payload, front, n, back, rfl, direct, short, others⟩ :=
      Form.exists_pushesOnly (Form.readFrom_ofTokens policy tokens) wellFormed single
    have push : (Opcode.data n).IsPush := Opcode.isPush_data direct
    refine ⟨front, ⟨.data n, data⟩, back, rfl, ⟨push, others⟩, payload, ?_⟩
    intro op counted
    have carries : (Token.mk op data).WellFormed :=
      Token.wellFormed_of_isCounted counted (Nat.lt_of_le_of_lt short (by decide))
    obtain ⟨-, spelled⟩ := tokenize_respell tokenized carries
    refine ⟨spelled, ?_⟩
    rw [classify_of_tokenize spelled,
      Form.ofTokens_respelled_of_single wellFormed push single counted carries]
    rfl

/-- One of one signatures, with a key that is none. -/
def looseMultiSig : List Token :=
  [⟨.ofSmallInt 1, []⟩, ⟨.data 1, [0xff]⟩, ⟨.ofSmallInt 1, []⟩, ⟨.checkMultiSig, []⟩]

/-- The byte `0x81` behind `RETURN`, pushed directly. -/
def returningByte : List Token := [⟨.opReturn, []⟩, ⟨.data 1, [0x81]⟩]

theorem pushes_respelled_samples :
    ((classify 0 [0x51, 0x01, 0xff, 0x51, 0xae] .withTreasury).outputClass = .multiSig ∧
        classify 0 [0x51, 0x4e, 0x01, 0x00, 0x00, 0x00, 0xff, 0x51, 0xae] .withTreasury =
          classify 0 [0x51, 0x01, 0xff, 0x51, 0xae] .withTreasury) ∧
      ((classify 0 [0x6a, 0x01, 0x81] .withTreasury).outputClass = .nullData ∧
        classify 0 [0x6a, 0x4d, 0x01, 0x00, 0x81] .withTreasury = ⟨.nullData, none⟩) ∧
      (classify 0 (sampleAddress.paymentTokens.flatMap Token.bytes)
          .withTreasury).outputClass = .scriptHash ∧
        ∃ front push back,
          sampleAddress.paymentTokens = front ++ push :: back ∧
            push.opcode.IsPush ∧
            classify 0 (respell front push back .pushData1) .withTreasury =
              ⟨.nonStandard, none⟩ := by
  have readKeys : tokenize 0 [0x51, 0x01, 0xff, 0x51, 0xae] = .ok looseMultiSig :=
    tokenize_eq_ok_iff.mpr ⟨by decide, by decide⟩
  have readData : tokenize 0 [0x6a, 0x01, 0x81] = .ok returningByte :=
    tokenize_eq_ok_iff.mpr ⟨by decide, by decide⟩
  have readHash := Script.tokenize_payTo sampleAddress
  have keys : (classify 0 [0x51, 0x01, 0xff, 0x51, 0xae] .withTreasury).outputClass =
      .multiSig := by
    rw [classify_of_tokenize readKeys]
    rfl
  have data : (classify 0 [0x6a, 0x01, 0x81] .withTreasury).outputClass = .nullData := by
    rw [classify_of_tokenize readData]
    rfl
  have hash : (classify 0 (sampleAddress.paymentTokens.flatMap Token.bytes)
      .withTreasury).outputClass = .scriptHash := by
    rw [classify_of_tokenize readHash, sampleAddress, Form.ofTokens_scriptHash]
    rfl
  obtain ⟨_, read, ofKeys, -, -⟩ := pushes_respelled (keys.trans_ne (by decide))
  cases readKeys.symm.trans read
  obtain ⟨_, read, -, ofData, -⟩ := pushes_respelled (data.trans_ne (by decide))
  cases readData.symm.trans read
  obtain ⟨_, read, -, -, ofHash⟩ := pushes_respelled (hash.trans_ne (by decide))
  cases readHash.symm.trans read
  obtain ⟨front, push, back, split, ⟨pushes, -⟩, -, spelled⟩ :=
    ofHash (.inl (by rw [hash]; decide))
  have respelledKeys := ofKeys keys [⟨.ofSmallInt 1, []⟩] ⟨.data 1, [0xff]⟩
    [⟨.ofSmallInt 1, []⟩, ⟨.checkMultiSig, []⟩] .pushData4 rfl (by decide) (by decide) (by decide)
    (by decide) (by decide)
  have respelledData := ofData data ⟨.opReturn, []⟩ ⟨.data 1, [0x81]⟩ .pushData2 rfl (by decide)
    (by decide) (by decide)
  exact ⟨⟨keys, respelledKeys.1⟩, ⟨data, respelledData⟩, hash, front, push, back, split, pushes,
    (spelled .pushData1 (by decide)).2⟩

end LockingScript
