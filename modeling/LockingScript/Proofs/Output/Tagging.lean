import LockingScript.Proofs.Output.Malformed
import LockingScript.Proofs.Output.Payees

/-!
# What a tag does to a script

A tag is one opcode in front of a script. A script that pays to a hash keeps its payee and gets the
class of the tag, and every other script loses its standard form. No form without a tag opens with
the opcode of one, so nothing else can be recognised behind it.
-/

namespace LockingScript

namespace OutputClass

/-- The classes of scripts that can be tagged. -/
def taggable : List OutputClass := [pubKeyHash, scriptHash]

end OutputClass

namespace TaggedHash

/-- The form of the script that pays to the hash without a tag. -/
def form : TaggedHash → Form
  | pubKeyHash hash => .pubKeyHash hash
  | scriptHash hash => .scriptHash hash

@[simp] theorem outputClass_form (hash : TaggedHash) :
    hash.form.outputClass = hash.outputClass := by
  cases hash <;> rfl

theorem payees_tagged (tag : Tag) (hash : TaggedHash) :
    (Form.tagged tag hash).payees = { hash.form.payees with outputClass := tag.outputClass } := by
  cases hash <;> rfl

theorem exists_form_eq_iff {f : Form} :
    (∃ hash : TaggedHash, f = hash.form) ↔ f.outputClass ∈ OutputClass.taggable := by
  constructor
  · rintro ⟨hash, rfl⟩
    cases hash <;> simp [form, Form.outputClass, OutputClass.taggable]
  · intro listed
    cases f with
    | pubKeyHash hash => exact ⟨.pubKeyHash hash, rfl⟩
    | scriptHash hash => exact ⟨.scriptHash hash, rfl⟩
    | tagged tag hash =>
        cases tag <;> simp [Form.outputClass, Tag.outputClass, OutputClass.taggable] at listed
    | _ => simp [Form.outputClass, OutputClass.taggable] at listed

theorem ofTokens_eq_form_iff {policy : Policy} {tokens : List Token} {hash : TaggedHash}
    (wellFormed : ∀ t ∈ tokens, t.WellFormed) :
    Form.ofTokens policy tokens = hash.form ↔
      ∃ paid : HashAddress, paid.captured = hash ∧ tokens = paid.address.paymentTokens := by
  constructor
  · intro found
    have read := Form.readFrom_ofTokens policy tokens
    rw [found] at read
    cases hash with
    | pubKeyHash hash =>
        obtain ⟨kept, rfl, spelled⟩ := (Form.pubKeyHash?_eq_some_iff wellFormed).mp read
        exact ⟨.pubKeyHash kept, rfl, spelled⟩
    | scriptHash hash =>
        obtain ⟨kept, rfl, spelled⟩ := (Form.scriptHash?_eq_some_iff wellFormed).mp read
        exact ⟨.scriptHash kept, rfl, spelled⟩
  · rintro ⟨paid, rfl, rfl⟩
    cases paid with
    | pubKeyHash hash => exact Form.ofTokens_pubKeyHash policy hash
    | scriptHash hash => exact Form.ofTokens_scriptHash policy hash

end TaggedHash

/-- Whether a form without a tag can open with the opcode: with a key, with a number of signatures,
or with one of the opcodes that its script begins with. -/
def Opcode.OpensUntagged (op : Opcode) : Prop :=
  op.IsPush ∨ op.smallInt?.isSome ∨ op ∈ [dup, hash160, opReturn, tadd]

instance (op : Opcode) : Decidable op.OpensUntagged := inferInstanceAs (Decidable (_ ∨ _))

theorem Tag.not_opensUntagged (tag : Tag) : ¬ tag.opcode.OpensUntagged := by
  cases tag <;> decide

namespace Form

variable {policy : Policy} {first : Token} {tokens : List Token} {form : Form}

theorem opensUntagged_of_keyTokens {scheme : SignatureScheme} {key : Bytes}
    (accepted : scheme.Accepts key) (spelled : first :: tokens = scheme.keyTokens key) :
    first.opcode.OpensUntagged := by
  have short : key.length ≤ 75 :=
    Nat.le_trans (SignatureScheme.length_le_of_accepts accepted) (by decide)
  cases spelled
  exact .inl (Opcode.isPush_data short)

theorem opensUntagged_of_multiSig {m : MultiSig}
    (found : MultiSig.ofTokens? (first :: tokens) = some m) : first.opcode.OpensUntagged := by
  obtain ⟨opening, slots, count, last, spelled, layout⟩ := MultiSig.ofTokens?_eq_some_iff.mp found
  cases spelled
  exact .inr (.inl (by rw [layout.required]; rfl))

theorem opensUntagged_of_isTreasuryAdd (found : isTreasuryAdd policy (first :: tokens) = true) :
    first.opcode.OpensUntagged := by
  simp only [isTreasuryAdd, Bool.and_eq_true, decide_eq_true_eq, List.map_cons,
    List.cons.injEq] at found
  rw [found.2.1]
  decide

theorem opensUntagged_of_isNullData (found : isNullData (first :: tokens) = true) :
    first.opcode.OpensUntagged := by
  have opcode : first.opcode = .opReturn := by
    unfold isNullData at found
    split at found
    · rename_i spelled
      cases spelled
      exact of_decide_eq_true found
    · rename_i spelled
      cases spelled
      simp only [Bool.and_eq_true, decide_eq_true_eq] at found
      exact found.1.1
    · cases found
  rw [opcode]
  decide

/-- A script that opens with none of the opcodes for it has a tag or no standard form. -/
theorem tagged_or_nonStandard_of_readFrom (wellFormed : ∀ t ∈ first :: tokens, t.WellFormed)
    (read : form.ReadFrom policy (first :: tokens)) (other : ¬ first.opcode.OpensUntagged) :
    form = nonStandard ∨ ∃ tag hash, form = tagged tag hash := by
  cases form with
  | nonStandard => exact .inl rfl
  | tagged tag hash => exact .inr ⟨tag, hash, rfl⟩
  | pubKey key =>
      obtain ⟨accepted, spelled⟩ := (pubKey?_eq_some_iff wellFormed).mp read
      exact absurd (opensUntagged_of_keyTokens accepted spelled) other
  | pubKeyAlt key scheme =>
      obtain ⟨_, accepted, spelled⟩ := (pubKeyAlt?_eq_some_iff wellFormed).mp read
      exact absurd (opensUntagged_of_keyTokens accepted spelled) other
  | pubKeyHash hash =>
      obtain ⟨_, _, spelled⟩ := (pubKeyHash?_eq_some_iff wellFormed).mp read
      cases spelled
      exact absurd (by decide) other
  | pubKeyHashAlt hash scheme =>
      obtain ⟨_, _, _, spelled⟩ := (pubKeyHashAlt?_eq_some_iff wellFormed).mp read
      cases spelled
      exact absurd (by decide) other
  | scriptHash hash =>
      obtain ⟨_, _, spelled⟩ := (scriptHash?_eq_some_iff wellFormed).mp read
      cases spelled
      exact absurd (by decide) other
  | multiSig m => exact absurd (opensUntagged_of_multiSig read) other
  | nullData => exact absurd (opensUntagged_of_isNullData read) other
  | treasuryAdd => exact absurd (opensUntagged_of_isTreasuryAdd read) other

section Tagged

variable (tag : Tag)

theorem wellFormed_tag : (Token.mk tag.opcode []).WellFormed := by cases tag <;> decide

theorem wellFormed_tag_cons (wellFormed : ∀ t ∈ tokens, t.WellFormed) :
    ∀ t ∈ Token.mk tag.opcode [] :: tokens, t.WellFormed :=
  List.forall_mem_cons.mpr ⟨wellFormed_tag tag, wellFormed⟩

/-- Behind an enabled tag, a script that pays to a hash still does. -/
theorem ofTokens_tag_cons_of_form (wellFormed : ∀ t ∈ tokens, t.WellFormed)
    (enabled : tag ∈ Tag.all policy) {hash : TaggedHash}
    (found : ofTokens policy tokens = hash.form) :
    ofTokens policy (⟨tag.opcode, []⟩ :: tokens) = tagged tag hash := by
  obtain ⟨paid, captured, spelled⟩ := (TaggedHash.ofTokens_eq_form_iff wellFormed).mp found
  have read : tagged? policy (⟨tag.opcode, []⟩ :: tokens) = some (tag, hash) :=
    (tagged?_eq_some_iff (wellFormed_tag_cons tag wellFormed)).mpr
      ⟨enabled, paid, captured, congrArg _ spelled⟩
  have standard : tagged tag hash ≠ nonStandard := by simp
  exact ofTokens_eq_of_readFrom read standard

/-- A standard form behind a tag has a tag itself, and the rest of the script pays to its hash. -/
theorem ofTokens_tag_cons_cases (wellFormed : ∀ t ∈ tokens, t.WellFormed) :
    ofTokens policy (⟨tag.opcode, []⟩ :: tokens) = nonStandard ∨
      ∃ found hash, ofTokens policy (⟨tag.opcode, []⟩ :: tokens) = tagged found hash ∧
        ofTokens policy tokens = hash.form := by
  have whole := wellFormed_tag_cons tag wellFormed
  have read := readFrom_ofTokens policy (⟨tag.opcode, []⟩ :: tokens)
  rcases tagged_or_nonStandard_of_readFrom whole read tag.not_opensUntagged with
    none | ⟨found, hash, form⟩
  · exact .inl none
  · rw [form] at read
    obtain ⟨_, paid, captured, spelled⟩ := (tagged?_eq_some_iff whole).mp read
    refine .inr ⟨found, hash, form, ?_⟩
    exact (TaggedHash.ofTokens_eq_form_iff wellFormed).mpr
      ⟨paid, captured, (List.cons.inj spelled).2⟩

/-- A tag in front of any other script, tagged or not, makes it a script without a standard form. -/
theorem ofTokens_tag_cons_of_other (wellFormed : ∀ t ∈ tokens, t.WellFormed)
    (other : (ofTokens policy tokens).outputClass ∉ OutputClass.taggable) :
    ofTokens policy (⟨tag.opcode, []⟩ :: tokens) = nonStandard := by
  rcases ofTokens_tag_cons_cases tag wellFormed with none | ⟨_, hash, _, inner⟩
  · exact none
  · exact absurd (TaggedHash.exists_form_eq_iff.mp ⟨hash, inner⟩) other

/-- What opens with a tag cannot be tagged once more. -/
theorem outputClass_tag_cons_not_mem (wellFormed : ∀ t ∈ tokens, t.WellFormed) :
    (ofTokens policy (⟨tag.opcode, []⟩ :: tokens)).outputClass ∉ OutputClass.taggable := by
  rcases ofTokens_tag_cons_cases tag wellFormed with none | ⟨found, _, form, _⟩
  · rw [none]
    decide
  · rw [form]
    cases found <;> simp [outputClass, Tag.outputClass, OutputClass.taggable]

end Tagged

end Form

variable {policy : Policy} {inner : Bytes}

theorem exists_tokenize_of_taggable
    (taggable : (classify 0 inner policy).outputClass ∈ OutputClass.taggable) :
    ∃ tokens, tokenize 0 inner = .ok tokens :=
  exists_tokenize_of_standard (ne_of_mem_of_not_mem taggable (by decide))

/-- The scripts that can be tagged are those that are made for a hash. -/
theorem classify_mem_taggable_iff :
    (classify 0 inner policy).outputClass ∈ OutputClass.taggable ↔
      ∃ (hash : HashAddress) (payment : Script),
        Script.payTo (some hash.address) = .ok payment ∧ inner = payment.bytes := by
  constructor
  · intro taggable
    obtain ⟨tokens, tokenized⟩ := exists_tokenize_of_taggable taggable
    obtain ⟨wellFormed, rfl⟩ := tokenize_eq_ok_iff.mp tokenized
    rw [classify_of_tokenize tokenized] at taggable
    obtain ⟨_, form⟩ := TaggedHash.exists_form_eq_iff.mpr taggable
    obtain ⟨hash, _, rfl⟩ := (TaggedHash.ofTokens_eq_form_iff wellFormed).mp form
    exact ⟨hash, _, Script.payTo_some hash.address, rfl⟩
  · rintro ⟨hash, payment, made, rfl⟩
    cases (Script.payTo_some hash.address).symm.trans made
    rw [classify_of_tokenize (Script.tokenize_payTo hash.address)]
    have wellFormed : ∀ t ∈ hash.address.paymentTokens, t.WellFormed :=
      Address.wellFormed_of_mem_paymentTokens
    exact TaggedHash.exists_form_eq_iff.mp
      ⟨hash.captured, (TaggedHash.ofTokens_eq_form_iff wellFormed).mpr ⟨hash, rfl, rfl⟩⟩

theorem tokenize_tag_cons (tag : Tag) (inner : Bytes) :
    tokenize 0 (tag.opcode.byte :: inner) =
      (tokenize 0 inner).map (⟨tag.opcode, []⟩ :: ·) := by
  have plain : (Token.mk tag.opcode []).bytes = [tag.opcode.byte] := by cases tag <;> rfl
  have read := tokenize_bytes_append (Form.wellFormed_tag tag) inner
  rwa [plain] at read

/-- Behind an enabled tag, a script that pays to a hash keeps its payee. -/
theorem tag_cons_of_taggable {tag : Tag} (enabled : tag ∈ Tag.all policy)
    (taggable : (classify 0 inner policy).outputClass ∈ OutputClass.taggable) :
    classify 0 (tag.opcode.byte :: inner) policy =
        ⟨tag.outputClass, some (classify 0 inner policy).outputClass⟩ ∧
      ∃ found, payees 0 inner policy = .ok found ∧
        payees 0 (tag.opcode.byte :: inner) policy =
          .ok { found with outputClass := tag.outputClass } := by
  have tagged := tokenize_tag_cons tag inner
  obtain ⟨tokens, tokenized⟩ := exists_tokenize_of_taggable taggable
  rw [tokenized] at tagged
  rw [classify_of_tokenize tokenized] at taggable ⊢
  obtain ⟨hash, form⟩ := TaggedHash.exists_form_eq_iff.mpr taggable
  have formTagged :=
    Form.ofTokens_tag_cons_of_form tag (wellFormed_of_tokenize tokenized) enabled form
  refine ⟨?_, hash.form.payees, ?_, ?_⟩
  · rw [classify_of_tokenize tagged, formTagged, form, TaggedHash.outputClass_form]
    rfl
  · rw [payees_of_tokenize tokenized, form]
  · rw [payees_of_tokenize tagged, formTagged, TaggedHash.payees_tagged]

/-- Behind a tag no other script has a standard form, and a malformed script has its fault. -/
theorem tag_cons_of_other (tag : Tag)
    (other : (classify 0 inner policy).outputClass ∉ OutputClass.taggable) :
    classify 0 (tag.opcode.byte :: inner) policy = ⟨.nonStandard, none⟩ ∧
      payees 0 (tag.opcode.byte :: inner) policy =
        (payees 0 inner policy).map fun _ => ⟨.nonStandard, [], 0⟩ := by
  have tagged := tokenize_tag_cons tag inner
  cases tokenized : tokenize 0 inner with
  | error fault =>
      rw [tokenized] at tagged
      refine ⟨classify_of_malformed tagged policy, ?_⟩
      rw [payees_eq_error_iff.mpr tagged, payees_eq_error_iff.mpr tokenized]
      rfl
  | ok tokens =>
      rw [tokenized] at tagged
      rw [classify_of_tokenize tokenized] at other
      have form :=
        Form.ofTokens_tag_cons_of_other tag (wellFormed_of_tokenize tokenized) other
      constructor
      · rw [classify_of_tokenize tagged, form]
        rfl
      · rw [payees_of_tokenize tagged, payees_of_tokenize tokenized, form]
        rfl

theorem classify_tag_cons_not_mem (tag : Tag) (inner : Bytes) :
    (classify 0 (tag.opcode.byte :: inner) policy).outputClass ∉ OutputClass.taggable := by
  have tagged := tokenize_tag_cons tag inner
  cases tokenized : tokenize 0 inner with
  | error fault =>
      rw [tokenized] at tagged
      rw [classify_of_malformed tagged]
      decide
  | ok tokens =>
      rw [tokenized] at tagged
      rw [classify_of_tokenize tagged]
      exact Form.outputClass_tag_cons_not_mem tag (wellFormed_of_tokenize tokenized)

/-- An enabled tag turns a script that was made for a hash into one of its own class with the same
payee, and leaves no other script a standard form. In particular it cannot stand in front of a
tag. -/
theorem tagging_commutes (tag : Tag) (enabled : tag = .treasurySpend → policy.treasury = true)
    (inner : Bytes) :
    ((classify 0 inner policy).outputClass ∈ [OutputClass.pubKeyHash, .scriptHash] ↔
      ∃ (hash : HashAddress) (payment : Script),
        Script.payTo (some hash.address) = .ok payment ∧ inner = payment.bytes) ∧
    ((classify 0 inner policy).outputClass ∈ [OutputClass.pubKeyHash, .scriptHash] →
      classify 0 (tag.opcode.byte :: inner) policy =
          ⟨tag.outputClass, some (classify 0 inner policy).outputClass⟩ ∧
        ∃ found, payees 0 inner policy = .ok found ∧
          payees 0 (tag.opcode.byte :: inner) policy =
            .ok { found with outputClass := tag.outputClass }) ∧
    ((classify 0 inner policy).outputClass ∉ [OutputClass.pubKeyHash, .scriptHash] →
      classify 0 (tag.opcode.byte :: inner) policy = ⟨.nonStandard, none⟩ ∧
        payees 0 (tag.opcode.byte :: inner) policy =
          (payees 0 inner policy).map fun _ => ⟨.nonStandard, [], 0⟩) ∧
    ∀ (other : Tag) (rest : Bytes), inner = other.opcode.byte :: rest →
      classify 0 (tag.opcode.byte :: inner) policy = ⟨.nonStandard, none⟩ := by
  have listed := Tag.mem_all_iff.mpr enabled
  refine ⟨classify_mem_taggable_iff, tag_cons_of_taggable listed, tag_cons_of_other tag, ?_⟩
  rintro other rest rfl
  exact (tag_cons_of_other tag (classify_tag_cons_not_mem other rest)).1

/-- The tag of treasury payments works on the sample. No further tag works on the result, and none
on a push that breaks off. -/
theorem tagging_commutes_samplePayment :
    (Tag.treasurySpend = .treasurySpend → Policy.withTreasury.treasury = true) ∧
      classify 0 (0xc3 :: samplePayment) .withTreasury = ⟨.treasurySpend, some .scriptHash⟩ ∧
      payees 0 (0xc3 :: samplePayment) .withTreasury =
        .ok ⟨.treasurySpend, [sampleAddress], 1⟩ ∧
      (Tag.submission = .treasurySpend → Policy.withTreasury.treasury = true) ∧
      classify 0 (0xba :: 0xc3 :: samplePayment) .withTreasury = ⟨.nonStandard, none⟩ ∧
      payees 0 [0xba, 0x02, 0x5d] .withTreasury = .error ⟨.data 2, .direct, 2, 1⟩ := by
  have enabled (tag : Tag) : tag = .treasurySpend → Policy.withTreasury.treasury = true :=
    fun _ => rfl
  obtain ⟨plain, paid, cut, unread⟩ :
      classify 0 samplePayment .withTreasury = ⟨.scriptHash, none⟩ ∧
        payees 0 samplePayment .withTreasury = .ok ⟨.scriptHash, [sampleAddress], 1⟩ ∧
        payees 0 [0x02, 0x5d] .withTreasury = .error ⟨.data 2, .direct, 2, 1⟩ ∧
        classify 0 [0x02, 0x5d] .withTreasury = ⟨.nonStandard, none⟩ := by
    decide +kernel
  have payment := tagging_commutes .treasurySpend (enabled _) samplePayment
  have stacked := tagging_commutes .submission (enabled _) (0xc3 :: samplePayment)
  have broken := tagging_commutes .submission (enabled _) [0x02, 0x5d]
  rw [plain] at payment
  rw [unread, cut] at broken
  obtain ⟨tagged, found, same, kept⟩ := payment.2.1 (by decide)
  rw [paid] at same
  cases same
  exact ⟨enabled _, tagged, kept, enabled _, stacked.2.2.2 .treasurySpend samplePayment rfl,
    (broken.2.2.1 (by decide)).2⟩

end LockingScript
