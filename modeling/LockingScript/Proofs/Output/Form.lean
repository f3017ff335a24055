import LockingScript.Output.Classification
import LockingScript.Proofs.Output.Payment

/-!
# What the readers of forms accept

Hashes and keys are recognised in exactly one spelling: the tokens that pay to an address, behind
a tag if there is one. The form of a script is the one that some reader of the list has read.
-/

namespace LockingScript

namespace SignatureScheme

/-- The tokens that check a signature of the scheme against a key. -/
def keyTokens (scheme : SignatureScheme) (key : Bytes) : List Token :=
  ⟨.data key.length, key⟩ :: scheme.checkTokens

/-- Whether scripts may name the key for the scheme. -/
def Accepts : SignatureScheme → Bytes → Prop
  | .ecdsa, key => IsStrictKey key
  | .ed25519, key => key.length = 32
  | .schnorr, key => IsCompressedKey key

theorem length_le_of_accepts {scheme : SignatureScheme} {key : Bytes}
    (accepted : scheme.Accepts key) : key.length ≤ 65 := by
  cases scheme with
  | ecdsa => rcases accepted with ⟨length, _⟩ | ⟨length, _⟩ <;> omega
  | ed25519 => exact Nat.le_trans (Nat.le_of_eq accepted) (by decide)
  | schnorr => exact Nat.le_trans (Nat.le_of_eq accepted.1) (by decide)

theorem checkTokens_injective : Function.Injective checkTokens := by
  intro scheme other
  cases scheme <;> cases other <;> decide

theorem keyTokens_inj {scheme other : SignatureScheme} {key found : Bytes} :
    scheme.keyTokens key = other.keyTokens found ↔ scheme = other ∧ key = found := by
  constructor
  · intro same
    simp only [keyTokens, List.cons.injEq, Token.mk.injEq] at same
    exact ⟨checkTokens_injective same.2, same.1.2⟩
  · rintro ⟨rfl, rfl⟩
    rfl

theorem wellFormed_of_mem_keyTokens (scheme : SignatureScheme) {key : Bytes}
    (short : key.length ≤ 75) : ∀ t ∈ scheme.keyTokens key, t.WellFormed := by
  refine List.forall_mem_cons.mpr ⟨Token.wellFormed_data short, ?_⟩
  cases scheme <;> decide

theorem ecdsa_accepts_iff (key : BytesN 33) :
    SignatureScheme.ecdsa.Accepts key.val ↔ IsCompressedKey key.val := by
  have length : key.val.length ≠ 65 := by
    rw [key.property]
    decide
  constructor
  · rintro (compressed | uncompressed)
    · exact compressed
    · exact absurd uncompressed.1 length
  · exact .inl

end SignatureScheme

namespace Form

variable {tokens : List Token}

theorem scheme?_eq_some_iff {t : Token} {scheme : SignatureScheme} (wellFormed : t.WellFormed) :
    scheme? t = some scheme ↔ scheme ≠ .ecdsa ∧ t = ⟨.ofSmallInt scheme.code, []⟩ := by
  have small : scheme.code ≤ 16 := by cases scheme <;> decide
  simp only [scheme?, Option.bind_eq_some_iff, SignatureScheme.ofSelector?_eq_some_iff]
  constructor
  · rintro ⟨_, selector, other, rfl⟩
    obtain ⟨opcode, _⟩ := Opcode.ofSmallInt_of_smallInt? selector
    have rule := Opcode.lengthRule_ofSmallInt small
    exact ⟨other, Token.eq_of_fixed_zero wellFormed opcode.symm rule⟩
  · rintro ⟨other, rfl⟩
    exact ⟨_, Opcode.smallInt?_ofSmallInt small, other, rfl⟩

theorem pubKey?_eq_some_iff {key : Bytes} (wellFormed : ∀ t ∈ tokens, t.WellFormed) :
    pubKey? tokens = some key ↔
      SignatureScheme.ecdsa.Accepts key ∧ tokens = SignatureScheme.ecdsa.keyTokens key := by
  constructor
  · intro found
    unfold pubKey? at found
    split at found
    · rename_i payload check
      simp only [List.forall_mem_cons] at wellFormed
      obtain ⟨payloadFormed, checkFormed, _⟩ := wellFormed
      split at found
      · rename_i shape
        obtain ⟨checkOpcode, payloadOpcode, strict⟩ := shape
        cases found
        have opcode : payload.opcode = .data payload.data.length := by
          rcases payloadOpcode with opcode | opcode
          · rw [Token.length_data_of_data payloadFormed opcode (by decide), opcode]
          · rw [Token.length_data_of_data payloadFormed opcode (by decide), opcode]
        refine ⟨strict, ?_⟩
        rw [Token.eq_of_fixed_zero checkFormed checkOpcode rfl, SignatureScheme.keyTokens, ← opcode]
        rfl
      · cases found
    · cases found
  · rintro ⟨strict, rfl⟩
    have length : key.length = 33 ∨ key.length = 65 := by
      rcases strict with compressed | uncompressed
      · exact .inl compressed.1
      · exact .inr uncompressed.1
    simp only [SignatureScheme.keyTokens, SignatureScheme.checkTokens, pubKey?]
    refine if_pos ⟨trivial, ?_, strict⟩
    rcases length with length | length
    · exact .inl (by rw [length])
    · exact .inr (by rw [length])

theorem pubKeyHash?_paymentTokens (hash : BytesN 20) :
    pubKeyHash? (Address.pubKeyHash hash .ecdsa).paymentTokens = some hash.val := rfl

/-- The hash of a key that is found has the length that addresses ask for, because the opcode in
front of it says so. -/
theorem pubKeyHash?_eq_some_iff {hash : Bytes} (wellFormed : ∀ t ∈ tokens, t.WellFormed) :
    pubKeyHash? tokens = some hash ↔
      ∃ kept : BytesN 20, kept.val = hash ∧
        tokens = (Address.pubKeyHash kept .ecdsa).paymentTokens := by
  constructor
  · intro found
    unfold pubKeyHash? at found
    split at found
    · rename_i dup hash160 payload verify check
      simp only [List.forall_mem_cons] at wellFormed
      obtain ⟨dupFormed, hash160Formed, payloadFormed, verifyFormed, checkFormed, _⟩ := wellFormed
      split at found
      · rename_i opcodes
        obtain ⟨dupOpcode, hash160Opcode, payloadOpcode, verifyOpcode, checkOpcode⟩ := opcodes
        have length := Token.length_data_of_data payloadFormed payloadOpcode (by decide)
        refine ⟨⟨payload.data, length⟩, Option.some.inj found, ?_⟩
        rw [Token.eq_of_fixed_zero dupFormed dupOpcode rfl,
          Token.eq_of_fixed_zero hash160Formed hash160Opcode rfl,
          Token.eq_of_fixed_zero verifyFormed verifyOpcode rfl,
          Token.eq_of_fixed_zero checkFormed checkOpcode rfl, Address.paymentTokens,
          ← payloadOpcode]
        rfl
      · cases found
    · cases found
  · rintro ⟨kept, rfl, rfl⟩
    exact pubKeyHash?_paymentTokens kept

theorem pubKeyAlt?_eq_some_iff {key : Bytes} {scheme : SignatureScheme}
    (wellFormed : ∀ t ∈ tokens, t.WellFormed) :
    pubKeyAlt? tokens = some (key, scheme) ↔
      scheme ≠ .ecdsa ∧ scheme.Accepts key ∧ tokens = scheme.keyTokens key := by
  constructor
  · intro found
    unfold pubKeyAlt? at found
    split at found
    · rename_i payload selector check
      simp only [List.forall_mem_cons] at wellFormed
      obtain ⟨payloadFormed, selectorFormed, checkFormed, _⟩ := wellFormed
      split at found
      · rename_i checkOpcode
        have rest {scheme : SignatureScheme} (chosen : scheme? selector = some scheme) :
            [selector, check] = scheme.checkTokens := by
          obtain ⟨other, rfl⟩ := (scheme?_eq_some_iff selectorFormed).mp chosen
          rw [Token.eq_of_fixed_zero checkFormed checkOpcode rfl,
            SignatureScheme.checkTokens_of_ne other]
        split at found
        · rename_i chosen
          split at found
          · rename_i opcode
            cases found
            have length := Token.length_data_of_data payloadFormed opcode (by decide)
            refine ⟨by decide, length, ?_⟩
            rw [rest chosen, SignatureScheme.keyTokens, length, ← opcode]
          · cases found
        · rename_i chosen
          split at found
          · rename_i shape
            obtain ⟨opcode, compressed⟩ := shape
            cases found
            refine ⟨by decide, compressed, ?_⟩
            rw [rest chosen, SignatureScheme.keyTokens, compressed.1, ← opcode]
          · cases found
        · cases found
      · cases found
    · cases found
  · rintro ⟨other, accepted, rfl⟩
    cases scheme with
    | ecdsa => exact absurd rfl other
    | ed25519 =>
        have length : key.length = 32 := accepted
        simp only [SignatureScheme.keyTokens, length]
        rfl
    | schnorr =>
        have compressed : IsCompressedKey key := accepted
        simp only [SignatureScheme.keyTokens, compressed.1]
        exact if_pos ⟨rfl, compressed⟩

theorem pubKeyHashAlt?_paymentTokens (hash : BytesN 20) {scheme : SignatureScheme}
    (other : scheme ≠ .ecdsa) :
    pubKeyHashAlt? (Address.pubKeyHash hash scheme).paymentTokens = some (hash.val, scheme) := by
  cases scheme with
  | ecdsa => exact absurd rfl other
  | ed25519 | schnorr => rfl

theorem pubKeyHashAlt?_eq_some_iff {hash : Bytes} {scheme : SignatureScheme}
    (wellFormed : ∀ t ∈ tokens, t.WellFormed) :
    pubKeyHashAlt? tokens = some (hash, scheme) ↔
      scheme ≠ .ecdsa ∧ ∃ kept : BytesN 20, kept.val = hash ∧
        tokens = (Address.pubKeyHash kept scheme).paymentTokens := by
  constructor
  · intro found
    unfold pubKeyHashAlt? at found
    split at found
    · rename_i dup hash160 payload verify selector check
      simp only [List.forall_mem_cons] at wellFormed
      obtain ⟨dupFormed, hash160Formed, payloadFormed, verifyFormed, selectorFormed, checkFormed,
        _⟩ := wellFormed
      split at found
      · rename_i opcodes
        obtain ⟨dupOpcode, hash160Opcode, payloadOpcode, verifyOpcode, checkOpcode⟩ := opcodes
        obtain ⟨named, chosen, same⟩ := Option.map_eq_some_iff.mp found
        cases same
        obtain ⟨other, rfl⟩ := (scheme?_eq_some_iff selectorFormed).mp chosen
        have length := Token.length_data_of_data payloadFormed payloadOpcode (by decide)
        refine ⟨other, ⟨payload.data, length⟩, rfl, ?_⟩
        rw [Token.eq_of_fixed_zero dupFormed dupOpcode rfl,
          Token.eq_of_fixed_zero hash160Formed hash160Opcode rfl,
          Token.eq_of_fixed_zero verifyFormed verifyOpcode rfl,
          Token.eq_of_fixed_zero checkFormed checkOpcode rfl, Address.paymentTokens,
          SignatureScheme.checkTokens_of_ne other, ← payloadOpcode]
        rfl
      · cases found
    · cases found
  · rintro ⟨other, kept, rfl, rfl⟩
    exact pubKeyHashAlt?_paymentTokens kept other

theorem scriptHash?_paymentTokens (hash : BytesN 20) :
    scriptHash? (Address.scriptHash hash).paymentTokens = some hash.val := rfl

theorem scriptHash?_eq_some_iff {hash : Bytes} (wellFormed : ∀ t ∈ tokens, t.WellFormed) :
    scriptHash? tokens = some hash ↔
      ∃ kept : BytesN 20, kept.val = hash ∧ tokens = (Address.scriptHash kept).paymentTokens := by
  constructor
  · intro found
    unfold scriptHash? at found
    split at found
    · rename_i hash160 payload equal
      simp only [List.forall_mem_cons] at wellFormed
      obtain ⟨hash160Formed, payloadFormed, equalFormed, _⟩ := wellFormed
      split at found
      · rename_i opcodes
        obtain ⟨hash160Opcode, payloadOpcode, equalOpcode⟩ := opcodes
        have length := Token.length_data_of_data payloadFormed payloadOpcode (by decide)
        refine ⟨⟨payload.data, length⟩, Option.some.inj found, ?_⟩
        rw [Token.eq_of_fixed_zero hash160Formed hash160Opcode rfl,
          Token.eq_of_fixed_zero equalFormed equalOpcode rfl, Address.paymentTokens,
          ← payloadOpcode]
      · cases found
    · cases found
  · rintro ⟨kept, rfl, rfl⟩
    exact scriptHash?_paymentTokens kept

end Form

/-- The hash of a key for ECDSA or of a script, as an address holds it. -/
inductive HashAddress where
  | pubKeyHash (hash : BytesN 20)
  | scriptHash (hash : BytesN 20)
deriving DecidableEq, Repr

namespace HashAddress

def address : HashAddress → Address
  | pubKeyHash hash => .pubKeyHash hash .ecdsa
  | scriptHash hash => .scriptHash hash

/-- What a reader finds of the address behind a tag. -/
def captured : HashAddress → TaggedHash
  | pubKeyHash hash => .pubKeyHash hash.val
  | scriptHash hash => .scriptHash hash.val

end HashAddress

theorem Tag.outputClass_injective : Function.Injective Tag.outputClass := by
  intro tag other
  cases tag <;> cases other <;> decide

theorem Tag.mem_all_iff {tag : Tag} {policy : Policy} :
    tag ∈ all policy ↔ (tag = .treasurySpend → policy.treasury = true) := by
  obtain ⟨_ | _⟩ := policy <;> cases tag <;> decide

theorem Tag.ofOpcode?_eq_some_iff {policy : Policy} {op : Opcode} {tag : Tag} :
    ofOpcode? policy op = some tag ↔ tag ∈ all policy ∧ tag.opcode = op := by
  constructor
  · intro found
    exact ⟨List.mem_of_find?_eq_some found, by simpa using List.find?_some found⟩
  · rintro ⟨membership, rfl⟩
    obtain ⟨_ | _⟩ := policy <;> revert tag <;> decide

namespace Form

variable {tokens : List Token} {policy : Policy}

theorem tagged?_eq_some_iff {tag : Tag} {hash : TaggedHash}
    (wellFormed : ∀ t ∈ tokens, t.WellFormed) :
    tagged? policy tokens = some (tag, hash) ↔
      tag ∈ Tag.all policy ∧ ∃ paid : HashAddress, paid.captured = hash ∧
        tokens = ⟨tag.opcode, []⟩ :: paid.address.paymentTokens := by
  have plain (tag : Tag) : tag.opcode.lengthRule = .fixed 0 := by cases tag <;> rfl
  constructor
  · intro found
    unfold tagged? at found
    split at found
    · cases found
    · rename_i first inner
      simp only [List.forall_mem_cons] at wellFormed
      obtain ⟨firstFormed, innerFormed⟩ := wellFormed
      split at found
      · rename_i tagFound hashFound
        cases found
        obtain ⟨membership, opcode⟩ := Tag.ofOpcode?_eq_some_iff.mp tagFound
        obtain ⟨kept, rfl, rfl⟩ := (pubKeyHash?_eq_some_iff innerFormed).mp hashFound
        refine ⟨membership, .pubKeyHash kept, rfl, ?_⟩
        rw [Token.eq_of_fixed_zero firstFormed opcode.symm (plain tag)]
        rfl
      · rename_i tagFound _ hashFound
        cases found
        obtain ⟨membership, opcode⟩ := Tag.ofOpcode?_eq_some_iff.mp tagFound
        obtain ⟨kept, rfl, rfl⟩ := (scriptHash?_eq_some_iff innerFormed).mp hashFound
        refine ⟨membership, .scriptHash kept, rfl, ?_⟩
        rw [Token.eq_of_fixed_zero firstFormed opcode.symm (plain tag)]
        rfl
      · cases found
  · rintro ⟨membership, paid, rfl, rfl⟩
    have tagFound := Tag.ofOpcode?_eq_some_iff.mpr ⟨membership, rfl⟩
    cases paid with
    | pubKeyHash hash =>
        simp only [tagged?, tagFound, HashAddress.address, pubKeyHash?_paymentTokens,
          HashAddress.captured]
    | scriptHash hash =>
        have other : pubKeyHash? (Address.scriptHash hash).paymentTokens = none := rfl
        simp only [tagged?, tagFound, HashAddress.address, other, scriptHash?_paymentTokens,
          HashAddress.captured]

/-- The reader of the form accepts the tokens, or no reader does. -/
def ReadFrom (policy : Policy) (tokens : List Token) : Form → Prop
  | nonStandard => ∀ reader ∈ readers policy, reader tokens = none
  | pubKey key => pubKey? tokens = some key
  | pubKeyHash hash => pubKeyHash? tokens = some hash
  | pubKeyAlt key scheme => pubKeyAlt? tokens = some (key, scheme)
  | pubKeyHashAlt hash scheme => pubKeyHashAlt? tokens = some (hash, scheme)
  | scriptHash hash => scriptHash? tokens = some hash
  | multiSig m => MultiSig.ofTokens? tokens = some m
  | nullData => isNullData tokens
  | tagged tag hash => tagged? policy tokens = some (tag, hash)
  | treasuryAdd => isTreasuryAdd policy tokens

theorem readFrom_of_reader {place : Nat} {reader : List Token → Option Form} {form : Form}
    (listed : (readers policy)[place]? = some reader) (accepted : reader tokens = some form) :
    form.ReadFrom policy tokens := by
  match place, listed with
  | 0, rfl | 1, rfl | 2, rfl | 3, rfl | 4, rfl | 5, rfl | 7, rfl =>
      obtain ⟨_, found, rfl⟩ := Option.map_eq_some_iff.mp accepted
      exact found
  | 6, rfl | 8, rfl =>
      obtain ⟨found, same⟩ := Option.ite_none_right_eq_some.mp accepted
      cases same
      exact found

theorem readFrom_ofTokens (policy : Policy) (tokens : List Token) :
    (ofTokens policy tokens).ReadFrom policy tokens := by
  unfold ofTokens
  cases search : (readers policy).findSome? fun reader => reader tokens with
  | none => exact List.findSome?_eq_none_iff.mp search
  | some form =>
      obtain ⟨reader, membership, found⟩ := List.exists_of_findSome?_eq_some search
      obtain ⟨place, listed⟩ := List.mem_iff_getElem?.mp membership
      exact readFrom_of_reader listed found

theorem ofTokens_of_refused (refused : ∀ reader ∈ readers policy, reader tokens = none) :
    ofTokens policy tokens = nonStandard := by
  rw [ofTokens, List.findSome?_eq_none_iff.mpr refused]
  rfl

end Form

theorem classify_of_tokenize {version : UInt16} {script : Bytes} {tokens : List Token}
    (tokenized : tokenize version script = .ok tokens) (policy : Policy) :
    classify version script policy =
      ⟨(Form.ofTokens policy tokens).outputClass, (Form.ofTokens policy tokens).innerClass?⟩ := by
  rw [classify, tokenized]

theorem payees_of_tokenize {version : UInt16} {script : Bytes} {tokens : List Token}
    (tokenized : tokenize version script = .ok tokens) (policy : Policy) :
    payees version script policy = .ok (Form.ofTokens policy tokens).payees := by
  rw [payees, tokenized]
  rfl

theorem payees_eq_ok_iff {version : UInt16} {script : Bytes} {policy : Policy} {found : Payees} :
    payees version script policy = .ok found ↔
      ∃ tokens, tokenize version script = .ok tokens ∧
        (Form.ofTokens policy tokens).payees = found := by
  unfold payees
  cases tokenize version script <;> simp [Except.map]

end LockingScript
