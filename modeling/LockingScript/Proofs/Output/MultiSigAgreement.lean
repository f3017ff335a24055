import LockingScript.Proofs.Output.Consistency
import LockingScript.Proofs.Output.Malformed

/-!
# The two readings of a multisig script

A multisig script can be read for its numbers alone, without a look at any other form, or be
classified among all of them. The same scripts are multisig either way, with the same number of
required signatures, and the payees are the keys that decode: that loose encodings are sorted out
first costs none of them.
-/

namespace LockingScript

variable {script : Bytes} {policy : Policy} {tokens : List Token} {m : MultiSig}

namespace MultiSig

theorem ofScript_eq_ok_iff :
    ofScript script = .ok m ↔
      ∃ tokens, tokenize 0 script = .ok tokens ∧ ofTokens? tokens = some m := by
  cases tokenized : tokenize 0 script with
  | error fault => simp [ofScript_of_malformed tokenized]
  | ok tokens =>
      rw [ofScript_of_tokenize tokenized]
      cases read : ofTokens? tokens <;> simp [read]

/-- A script is read as multisig or is refused for one reason. -/
theorem ofScript_eq_ok_or_error (script : Bytes) :
    (∃ m, ofScript script = .ok m) ∨ ofScript script = .error .notMultiSig := by
  cases tokenized : tokenize 0 script with
  | error fault => exact .inr (ofScript_of_malformed tokenized)
  | ok tokens =>
      rw [ofScript_of_tokenize tokenized]
      cases ofTokens? tokens with
      | none => exact .inr rfl
      | some m => exact .inl ⟨m, rfl⟩

theorem mem_strictKeys_of_ofSecpKey {key : Bytes} {address : Address} (listed : key ∈ m.keys)
    (made : Address.ofSecpKey key = .ok address) : key ∈ m.strictKeys :=
  List.mem_filter.mpr ⟨listed, decide_eq_true (Address.ofSecpKey_eq_ok_iff.mp made).1⟩

/-- Only a strictly encoded key has an address, so the addresses are those of all keys. -/
theorem filterMap_strictKeys (m : MultiSig) :
    m.strictKeys.filterMap (fun key => (Address.ofSecpKey key).toOption) =
      m.keys.filterMap fun key => (Address.ofSecpKey key).toOption := by
  rw [strictKeys, List.filterMap_filter]
  apply List.filterMap_congr
  intro key _
  split
  · rfl
  · rename_i loose
    cases made : Address.ofSecpKey key with
    | error _ => rfl
    | ok address =>
        have strict := (Address.ofSecpKey_eq_ok_iff.mp made).1
        exact absurd (decide_eq_true strict) loose

/-- How a multisig script, read for itself, describes its tokens and the payees of the script. -/
structure Describes (m : MultiSig) (tokens : List Token) (found : Payees) : Prop where
  pos : 1 ≤ m.required
  required_le : m.required ≤ m.keys.length
  length_le : m.keys.length ≤ 16
  length_tokens : tokens.length = m.keys.length + 3
  /-- The keys are the data of the tokens between the two numbers. -/
  keys : m.keys = ((tokens.drop 1).take m.keys.length).map Token.data
  outputClass : found.outputClass = .multiSig
  required : found.required = m.required
  /-- The payees are the keys that decode, in order and as often as they stand in the script. -/
  addresses : found.addresses =
    m.keys.filterMap fun key => (Address.ofSecpKey key).toOption
  length_addresses : found.addresses.length ≤ m.keys.length
  /-- A key that decodes is not among those that are left out for their encoding. -/
  strict : ∀ key ∈ m.keys, ∀ address, Address.ofSecpKey key = .ok address → key ∈ m.strictKeys

theorem describes_of_ofTokens? (read : ofTokens? tokens = some m) :
    m.Describes tokens (Form.multiSig m).payees := by
  obtain ⟨first, slots, count, last, rfl, layout⟩ := ofTokens?_eq_some_iff.mp read
  have length : m.keys.length = slots.length := by rw [layout.keys, List.length_map]
  exact {
    pos := layout.pos
    required_le := length ▸ layout.required_le
    length_le := (bounds_of_ofTokens? read).2.2
    length_tokens := by
      rw [length, List.length_cons, List.length_append]
      rfl
    keys := by
      rw [length, List.drop_one, List.tail_cons, List.take_left, layout.keys]
    outputClass := rfl
    required := rfl
    addresses := m.filterMap_strictKeys
    length_addresses := Form.length_addresses_multiSig_le m
    strict := fun _ listed _ made => mem_strictKeys_of_ofSecpKey listed made }

end MultiSig

theorem Form.outputClass_eq_multiSig_iff :
    (ofTokens policy tokens).outputClass = .multiSig ↔
      ∃ m, MultiSig.ofTokens? tokens = some m := by
  constructor
  · intro isMultiSig
    have read := readFrom_ofTokens policy tokens
    cases found : ofTokens policy tokens with
    | multiSig m =>
        rw [found] at read
        exact ⟨m, read⟩
    | tagged tag hash =>
        rw [found] at isMultiSig
        exact absurd isMultiSig tag.isSingle_outputClass.2
    | _ =>
        rw [found] at isMultiSig
        cases isMultiSig
  · rintro ⟨m, read⟩
    have found : (multiSig m).ReadFrom policy tokens := read
    rw [ofTokens_eq_of_readFrom found (by simp)]
    rfl

theorem outputClass_eq_multiSig_iff :
    (classify 0 script policy).outputClass = .multiSig ↔ ∃ m, MultiSig.ofScript script = .ok m := by
  simp only [MultiSig.ofScript_eq_ok_iff]
  cases tokenized : tokenize 0 script with
  | error fault => simp [classify_of_malformed tokenized]
  | ok tokens => simp [classify_of_tokenize tokenized, Form.outputClass_eq_multiSig_iff]

/-- A script that is read as multisig for itself has the class, and no other script has. What is
read describes the tokens of the script and its payees. -/
theorem multiSig_readings_agree (script : Bytes) (policy : Policy) :
    ((∃ m, MultiSig.ofScript script = .ok m) ↔
        (classify 0 script policy).outputClass = .multiSig) ∧
      ((classify 0 script policy).outputClass ≠ .multiSig →
        MultiSig.ofScript script = .error .notMultiSig) ∧
      ∀ m, MultiSig.ofScript script = .ok m →
        ∃ tokens found, tokenize 0 script = .ok tokens ∧
          payees 0 script policy = .ok found ∧ m.Describes tokens found := by
  refine ⟨outputClass_eq_multiSig_iff.symm, ?_, ?_⟩
  · intro other
    refine (MultiSig.ofScript_eq_ok_or_error script).resolve_left ?_
    exact fun read => other (outputClass_eq_multiSig_iff.mpr read)
  · intro m read
    obtain ⟨tokens, tokenized, found⟩ := MultiSig.ofScript_eq_ok_iff.mp read
    have form : (Form.multiSig m).ReadFrom policy tokens := found
    refine ⟨tokens, _, tokenized, payees_of_tokenize tokenized policy, ?_⟩
    rw [Form.ofTokens_eq_of_readFrom form (by simp)]
    exact MultiSig.describes_of_ofTokens? found

/-- Two of three keys have an address, the same one. The first is pushed with a length prefix. -/
def mixedMultiSig : Bytes :=
  [0x51, 0x4c, 0x21] ++ Curve.Point.generator.compressed.val ++ [0x01, 0xff, 0x21] ++
    Curve.Point.generator.compressed.val ++ [0x53, 0xae]

theorem multiSig_readings_agree_mixedMultiSig :
    MultiSig.ofScript mixedMultiSig =
        .ok ⟨1, [Curve.Point.generator.compressed.val, [0xff],
          Curve.Point.generator.compressed.val]⟩ ∧
      (classify 0 mixedMultiSig .withTreasury).outputClass = .multiSig ∧
      (∃ found, payees 0 mixedMultiSig .withTreasury = .ok found ∧ found.required = 1 ∧
        found.addresses =
          List.replicate 2 (Address.ofPoint Curve.Point.generator)) ∧
      (classify 0 mixedMultiSig.tail .withTreasury).outputClass ≠ .multiSig ∧
      MultiSig.ofScript mixedMultiSig.tail = .error .notMultiSig := by
  obtain ⟨read, other⟩ :
      MultiSig.ofScript mixedMultiSig =
          .ok ⟨1, [Curve.Point.generator.compressed.val, [0xff],
            Curve.Point.generator.compressed.val]⟩ ∧
        (classify 0 mixedMultiSig.tail .withTreasury).outputClass ≠ .multiSig := by
    decide +kernel
  obtain ⟨same, -, described⟩ := multiSig_readings_agree mixedMultiSig .withTreasury
  obtain ⟨_, found, -, paid, describes⟩ := described _ read
  have decoded := Address.ofSecpKey_compressed Curve.Point.generator
  have loose : (Address.ofSecpKey [0xff]).toOption = none := rfl
  refine ⟨read, same.mp ⟨_, read⟩, ⟨found, paid, describes.required, ?_⟩, other,
    (multiSig_readings_agree mixedMultiSig.tail .withTreasury).2.1 other⟩
  rw [describes.addresses]
  simp only [List.filterMap_cons, List.filterMap_nil, decoded, loose]
  rfl

end LockingScript
