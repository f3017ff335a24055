import LockingScript.Proofs.Output.Exclusion
import LockingScript.Proofs.Output.Malformed

/-!
# What the treasury changes

Only two forms need the treasury. Whatever else a script is read as, it is read as under every
policy, so without the treasury a script of one of the two has no standard form, and no other
script changes.
-/

namespace LockingScript

namespace OutputClass

/-- The classes of scripts that need the treasury. -/
def treasury : List OutputClass := [treasuryAdd, treasurySpend]

end OutputClass

theorem Tag.outputClass_mem_treasury_iff {tag : Tag} :
    tag.outputClass ∈ OutputClass.treasury ↔ tag = .treasurySpend := by
  cases tag <;> decide

namespace Form

variable {policy other : Policy} {tokens : List Token} {form : Form}

theorem isTreasuryAdd_iff (wellFormed : ∀ t ∈ tokens, t.WellFormed) :
    isTreasuryAdd policy tokens = true ↔ policy.treasury = true ∧ tokens = [⟨.tadd, []⟩] := by
  constructor
  · intro found
    simp only [isTreasuryAdd, Bool.and_eq_true, decide_eq_true_eq] at found
    obtain ⟨inForce, opcodes⟩ := found
    obtain ⟨add, rfl, opcode⟩ := List.map_eq_singleton_iff.mp opcodes
    rw [Token.eq_of_fixed_zero (List.forall_mem_singleton.mp wellFormed) opcode rfl]
    exact ⟨inForce, rfl⟩
  · rintro ⟨inForce, rfl⟩
    rw [isTreasuryAdd, inForce]
    rfl

theorem treasury_of_readFrom (wellFormed : ∀ t ∈ tokens, t.WellFormed)
    (read : form.ReadFrom policy tokens) (needed : form.outputClass ∈ OutputClass.treasury) :
    policy.treasury = true := by
  cases form with
  | tagged tag hash =>
      obtain ⟨enabled, _⟩ := (tagged?_eq_some_iff wellFormed).mp read
      exact Tag.mem_all_iff.mp enabled (Tag.outputClass_mem_treasury_iff.mp needed)
  | treasuryAdd => exact ((isTreasuryAdd_iff wellFormed).mp read).1
  | _ => simp [outputClass, OutputClass.treasury] at needed

/-- A form that does not need the treasury is read under every policy. -/
theorem readFrom_of_readFrom (wellFormed : ∀ t ∈ tokens, t.WellFormed)
    (read : form.ReadFrom policy tokens) (standard : form ≠ nonStandard)
    (plain : form.outputClass ∉ OutputClass.treasury) : form.ReadFrom other tokens := by
  cases form with
  | nonStandard => exact absurd rfl standard
  | treasuryAdd => exact absurd (by decide) plain
  | tagged tag hash =>
      obtain ⟨_, spelled⟩ := (tagged?_eq_some_iff wellFormed).mp read
      have enabled : tag ∈ Tag.all other := Tag.mem_all_iff.mpr fun spends =>
        absurd (Tag.outputClass_mem_treasury_iff.mpr spends) plain
      exact (tagged?_eq_some_iff wellFormed).mpr ⟨enabled, spelled⟩
  | _ => exact read

theorem ofTokens_eq_ofTokens (wellFormed : ∀ t ∈ tokens, t.WellFormed)
    (standard : ofTokens policy tokens ≠ nonStandard)
    (plain : (ofTokens policy tokens).outputClass ∉ OutputClass.treasury) :
    ofTokens other tokens = ofTokens policy tokens := by
  have read := readFrom_ofTokens policy tokens
  exact ofTokens_eq_of_readFrom (readFrom_of_readFrom wellFormed read standard plain) standard

theorem outputClass_withoutTreasury_not_mem (wellFormed : ∀ t ∈ tokens, t.WellFormed) :
    (ofTokens .withoutTreasury tokens).outputClass ∉ OutputClass.treasury := by
  intro needed
  have inForce := treasury_of_readFrom wellFormed (readFrom_ofTokens _ tokens) needed
  cases inForce

theorem ofTokens_withoutTreasury_of_mem (wellFormed : ∀ t ∈ tokens, t.WellFormed)
    (needed : (ofTokens policy tokens).outputClass ∈ OutputClass.treasury) :
    ofTokens .withoutTreasury tokens = nonStandard := by
  by_contra standard
  have plain := outputClass_withoutTreasury_not_mem wellFormed
  rw [ofTokens_eq_ofTokens wellFormed standard plain] at needed
  exact plain needed

theorem ofTokens_withoutTreasury_of_not_mem (wellFormed : ∀ t ∈ tokens, t.WellFormed)
    (plain : (ofTokens policy tokens).outputClass ∉ OutputClass.treasury) :
    ofTokens .withoutTreasury tokens = ofTokens policy tokens := by
  by_cases standard : ofTokens policy tokens = nonStandard
  · rw [standard]
    -- A form read without the treasury would be read under this policy too.
    by_contra found
    have kept := outputClass_withoutTreasury_not_mem wellFormed
    exact found ((ofTokens_eq_ofTokens wellFormed found kept).symm.trans standard)
  · exact ofTokens_eq_ofTokens wellFormed standard plain

/-- The treasury adds by one opcode alone, and it spends by its tag and a payment to a hash. -/
theorem outputClass_withTreasury_mem_iff (wellFormed : ∀ t ∈ tokens, t.WellFormed) :
    (ofTokens .withTreasury tokens).outputClass ∈ OutputClass.treasury ↔
      tokens = [⟨.tadd, []⟩] ∨
        ∃ hash : HashAddress, tokens = ⟨.tgen, []⟩ :: hash.address.paymentTokens := by
  constructor
  · intro needed
    have read := readFrom_ofTokens .withTreasury tokens
    cases found : ofTokens .withTreasury tokens with
    | treasuryAdd =>
        rw [found] at read
        exact .inl ((isTreasuryAdd_iff wellFormed).mp read).2
    | tagged tag hash =>
        rw [found] at read needed
        obtain ⟨_, paid, _, spelled⟩ := (tagged?_eq_some_iff wellFormed).mp read
        obtain rfl := Tag.outputClass_mem_treasury_iff.mp needed
        exact .inr ⟨paid, spelled⟩
    | _ => simp [found, outputClass, OutputClass.treasury] at needed
  · rintro (spelled | ⟨hash, spelled⟩)
    · have read : treasuryAdd.ReadFrom .withTreasury tokens :=
        (isTreasuryAdd_iff wellFormed).mpr ⟨rfl, spelled⟩
      rw [ofTokens_eq_of_readFrom read (by simp)]
      decide
    · have enabled : Tag.treasurySpend ∈ Tag.all .withTreasury := by decide
      have read : (tagged .treasurySpend hash.captured).ReadFrom .withTreasury tokens :=
        (tagged?_eq_some_iff wellFormed).mpr ⟨enabled, hash, rfl, spelled⟩
      rw [ofTokens_eq_of_readFrom read (by simp)]
      exact Tag.outputClass_mem_treasury_iff.mpr rfl

end Form

theorem classify_withTreasury_mem_iff_of_tokenize {version : UInt16} {script : Bytes}
    {tokens : List Token} (tokenized : tokenize version script = .ok tokens) :
    (classify version script .withTreasury).outputClass ∈ OutputClass.treasury ↔
      tokens = [⟨.tadd, []⟩] ∨
        ∃ hash : HashAddress, tokens = ⟨.tgen, []⟩ :: hash.address.paymentTokens := by
  rw [classify_of_tokenize tokenized]
  exact Form.outputClass_withTreasury_mem_iff (wellFormed_of_tokenize tokenized)

theorem classify_withTreasury_mem_iff {version : UInt16} {script : Bytes} :
    (classify version script .withTreasury).outputClass ∈ OutputClass.treasury ↔
      version = 0 ∧ (script = [0xc1] ∨
        ∃ (hash : HashAddress) (inner : Script),
          Script.payTo (some hash.address) = .ok inner ∧ script = 0xc3 :: inner.bytes) := by
  constructor
  · intro needed
    by_cases supported : version = 0
    · subst supported
      refine ⟨rfl, ?_⟩
      obtain ⟨tokens, tokenized⟩ :=
        exists_tokenize_of_standard (ne_of_mem_of_not_mem needed (by decide))
      obtain ⟨_, rfl⟩ := tokenize_eq_ok_iff.mp tokenized
      rcases (classify_withTreasury_mem_iff_of_tokenize tokenized).mp needed with
        rfl | ⟨hash, rfl⟩
      · exact .inl rfl
      · exact .inr ⟨hash, _, Script.payTo_some hash.address, rfl⟩
    · rw [classify_of_tokenize (tokenize_of_unsupported supported)] at needed
      exact absurd needed (by decide)
  · rintro ⟨rfl, rfl | ⟨hash, inner, made, rfl⟩⟩
    · have tokenized : tokenize 0 [0xc1] = .ok [⟨.tadd, []⟩] :=
        tokenize_eq_ok_iff.mpr ⟨by decide, rfl⟩
      exact (classify_withTreasury_mem_iff_of_tokenize tokenized).mpr (.inl rfl)
    · have spend : (Token.mk .tgen []).WellFormed := by decide
      cases (Script.payTo_some hash.address).symm.trans made
      have tokenized := tokenize_append (tokenize_bytes spend) (Script.tokenize_payTo hash.address)
      exact (classify_withTreasury_mem_iff_of_tokenize tokenized).mpr (.inr ⟨hash, rfl⟩)

/-- The treasury changes nothing but its own scripts: its opcode alone, and its tag in front of a
payment to a hash. Without it they have no standard form, every other script has the class and the
payees that it has with it, and no script has their classes. -/
theorem treasury_isolated (version : UInt16) (script : Bytes) :
    ((classify version script .withTreasury).outputClass ∈
        [OutputClass.treasuryAdd, .treasurySpend] ↔
      version = 0 ∧ (script = [0xc1] ∨
        ∃ (hash : HashAddress) (inner : Script),
          Script.payTo (some hash.address) = .ok inner ∧ script = 0xc3 :: inner.bytes)) ∧
    ((classify version script .withTreasury).outputClass ∈
        [OutputClass.treasuryAdd, .treasurySpend] →
      classify version script .withoutTreasury = ⟨.nonStandard, none⟩ ∧
        payees version script .withoutTreasury = .ok ⟨.nonStandard, [], 0⟩) ∧
    ((classify version script .withTreasury).outputClass ∉
        [OutputClass.treasuryAdd, .treasurySpend] →
      classify version script .withoutTreasury = classify version script .withTreasury ∧
        payees version script .withoutTreasury = payees version script .withTreasury) ∧
    (classify version script .withoutTreasury).outputClass ∉
      [OutputClass.treasuryAdd, .treasurySpend] := by
  refine ⟨classify_withTreasury_mem_iff, ?_⟩
  cases tokenized : tokenize version script with
  | error fault =>
      have unread := classify_of_malformed tokenized
      rw [unread, unread, payees_eq_error_iff.mpr tokenized, payees_eq_error_iff.mpr tokenized]
      exact ⟨fun needed => absurd needed (by decide), fun _ => ⟨rfl, rfl⟩, by decide⟩
  | ok tokens =>
      have wellFormed := wellFormed_of_tokenize tokenized
      have read := classify_of_tokenize tokenized
      have paid := payees_of_tokenize tokenized
      rw [read, read, paid, paid]
      refine ⟨?_, ?_, Form.outputClass_withoutTreasury_not_mem wellFormed⟩
      · intro needed
        rw [Form.ofTokens_withoutTreasury_of_mem wellFormed needed]
        exact ⟨rfl, rfl⟩
      · intro plain
        rw [Form.ofTokens_withoutTreasury_of_not_mem wellFormed plain]
        exact ⟨rfl, rfl⟩

/-- Tagged as a treasury payment, the sample is lost without the treasury. Tagged as ticket change
it is not. -/
theorem treasury_isolated_samplePayment :
    classify 0 (0xc3 :: samplePayment) .withTreasury = ⟨.treasurySpend, some .scriptHash⟩ ∧
      classify 0 (0xc3 :: samplePayment) .withoutTreasury = ⟨.nonStandard, none⟩ ∧
      payees 0 (0xc3 :: samplePayment) .withoutTreasury = .ok ⟨.nonStandard, [], 0⟩ ∧
      classify 0 (0xbd :: samplePayment) .withTreasury = ⟨.stakeChange, some .scriptHash⟩ ∧
      classify 0 (0xbd :: samplePayment) .withoutTreasury = ⟨.stakeChange, some .scriptHash⟩ := by
  obtain ⟨spend, change⟩ :
      classify 0 (0xc3 :: samplePayment) .withTreasury = ⟨.treasurySpend, some .scriptHash⟩ ∧
        classify 0 (0xbd :: samplePayment) .withTreasury = ⟨.stakeChange, some .scriptHash⟩ := by
    decide +kernel
  have lost := (treasury_isolated 0 (0xc3 :: samplePayment)).2.1
  have kept := (treasury_isolated 0 (0xbd :: samplePayment)).2.2.1
  rw [spend] at lost
  rw [change] at kept
  obtain ⟨unread, unpaid⟩ := lost (by decide)
  exact ⟨spend, unread, unpaid, change, (kept (by decide)).1⟩

end LockingScript
