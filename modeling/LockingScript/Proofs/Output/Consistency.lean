import LockingScript.Proofs.Output.MultiSig
import LockingScript.Proofs.Output.SinglePayee

/-!
# Classes and payees agree

The class of a script says how many signatures it asks for, how many payees it can have and of
which kind they are. An address is refused to a hash or an Ed25519 key of another length, but the
opcode that pushes one fixes its length, so that only a secp256k1 key can be without an address.
-/

namespace LockingScript

namespace OutputClass

/-- The classes of scripts that pay to nobody. -/
def unpaid : List OutputClass := [nonStandard, nullData, treasuryAdd]

theorem multiSig_not_mem_unpaid : multiSig ∉ unpaid := by decide

/-- The classes of scripts that pay to a hash and have no tag. -/
def hashed : List OutputClass := [pubKeyHash, pubKeyHashAlt, scriptHash]

/-- Whether scripts of the class have one payee at most, and ask for its signature alone. -/
def IsSingle (c : OutputClass) : Prop := c ∉ unpaid ∧ c ≠ multiSig

instance (c : OutputClass) : Decidable c.IsSingle := inferInstanceAs (Decidable (_ ∧ _))

/-- Whether scripts of the class have a tag, which is one of a ticket's life or the treasury's. -/
def IsTagged (c : OutputClass) : Prop := c.isStake ∨ c = treasurySpend

instance (c : OutputClass) : Decidable c.IsTagged := inferInstanceAs (Decidable (_ ∨ _))

variable {c : OutputClass}

theorem IsTagged.exists_tag (tagged : c.IsTagged) : ∃ tag : Tag, c = tag.outputClass := by
  cases c with
  | stakeSubmission => exact ⟨.submission, rfl⟩
  | stakeGen => exact ⟨.vote, rfl⟩
  | stakeRevocation => exact ⟨.revocation, rfl⟩
  | stakeChange => exact ⟨.change, rfl⟩
  | treasurySpend => exact ⟨.treasurySpend, rfl⟩
  | _ => exact absurd tagged (by decide)

/-- A single payee is given by a key, or by a hash with or without a tag in front. -/
theorem IsSingle.key_or_hash (single : c.IsSingle) :
    (c = pubKey ∨ c = pubKeyAlt) ∨ c ∈ hashed ∨ c.IsTagged := by
  cases c <;> revert single <;> decide

end OutputClass

namespace Tag

variable (tag : Tag)

theorem isTagged_outputClass : tag.outputClass.IsTagged := by cases tag <;> decide

theorem isSingle_outputClass : tag.outputClass.IsSingle := by cases tag <;> decide

end Tag

/-- The scheme of the payee's signatures. For a script hash it is up to the script. -/
def Address.scheme? : Address → Option SignatureScheme
  | .pubKeyHash _ scheme => some scheme
  | .scriptHash _ => none
  | .secpKey _ => some .ecdsa
  | .edwardsKey _ => some .ed25519
  | .schnorrKey _ => some .schnorr

theorem Address.checkTokens_suffix_paymentTokens {address : Address} {scheme : SignatureScheme}
    (asked : address.scheme? = some scheme) : scheme.checkTokens <:+ address.paymentTokens := by
  cases address with
  | pubKeyHash hash _ =>
      cases asked
      exact List.suffix_append _ _
  | scriptHash hash => cases asked
  | secpKey key | edwardsKey key | schnorrKey key =>
      cases asked
      exact List.suffix_cons _ _

/-- The class of scripts that pay to one of the payees alone: to one of the keys of a multisig
script, to the hash behind a tag, or the class itself. -/
def Classification.payeeClass (c : Classification) : OutputClass :=
  if c.outputClass = .multiSig then .pubKey else c.inner.getD c.outputClass

theorem MultiSig.bounds_of_ofTokens? {tokens : List Token} {m : MultiSig}
    (found : ofTokens? tokens = some m) :
    0 < m.required ∧ m.required ≤ 16 ∧ m.keys.length ≤ 16 := by
  obtain ⟨_, slots, _, _, _, layout⟩ := ofTokens?_eq_some_iff.mp found
  have keys : m.keys.length = slots.length := by rw [layout.keys, List.length_map]
  have few : slots.length ≤ 16 := (Opcode.ofSmallInt_of_smallInt? layout.total).2
  exact ⟨layout.pos, Nat.le_trans layout.required_le few, by omega⟩

namespace Form

section Keys

variable {key : Bytes} {scheme : SignatureScheme} {address : Address}

theorem addresses_keyForm (scheme : SignatureScheme) (key : Bytes) :
    (scheme.keyForm key).addresses = (addressOfKey key scheme).toOption.toList := by
  cases scheme <;> rfl

/-- An accepted key is without an address only if it is no point of the curve. -/
theorem decode?_eq_none_of_refused (accepted : scheme.Accepts key)
    (refused : ∀ address, addressOfKey key scheme ≠ .ok address) :
    scheme ≠ .ed25519 ∧ Curve.Point.decode? key = none := by
  cases scheme with
  | ed25519 =>
      have made := Address.ofEdwardsKey_eq_ok_iff.mpr ⟨⟨key, accepted⟩, rfl, rfl⟩
      exact absurd made (refused _)
  | ecdsa =>
      refine ⟨by decide, Option.eq_none_iff_forall_ne_some.mpr ?_⟩
      intro point decoded
      exact refused _ (Address.ofSecpKey_eq_ok_iff.mpr ⟨accepted, point, decoded, rfl⟩)
  | schnorr =>
      refine ⟨by decide, Option.eq_none_iff_forall_ne_some.mpr ?_⟩
      intro point decoded
      have spelled := Curve.Point.compressed_of_decode? accepted decoded
      exact refused _ (Address.ofSchnorrKey_eq_ok_iff.mpr ⟨point, spelled, rfl⟩)

theorem kind_of_addressOfKey (made : addressOfKey key scheme = .ok address) :
    address.paymentClass = (scheme.keyForm key).outputClass ∧ address.scheme? = some scheme := by
  cases scheme with
  | ecdsa =>
      obtain ⟨_, point, _, rfl⟩ := Address.ofSecpKey_eq_ok_iff.mp made
      exact ⟨rfl, rfl⟩
  | ed25519 =>
      obtain ⟨kept, _, rfl⟩ := Address.ofEdwardsKey_eq_ok_iff.mp made
      exact ⟨rfl, rfl⟩
  | schnorr =>
      obtain ⟨point, _, rfl⟩ := Address.ofSchnorrKey_eq_ok_iff.mp made
      exact ⟨rfl, rfl⟩

end Keys

section Shape

variable (form : Form)

theorem isSome_innerClass?_iff : form.innerClass?.isSome ↔ form.outputClass.IsTagged := by
  cases form with
  | tagged tag hash => simp [innerClass?, outputClass, tag.isTagged_outputClass]
  | _ => simp [innerClass?, outputClass, OutputClass.IsTagged, OutputClass.isStake]

theorem mem_of_mem_innerClass? {inner : OutputClass} (behind : inner ∈ form.innerClass?) :
    inner ∈ [OutputClass.pubKeyHash, .scriptHash] := by
  cases form with
  | tagged tag hash =>
      cases behind
      cases hash with
      | pubKeyHash _ => exact List.mem_cons_self
      | scriptHash _ => exact List.mem_cons_of_mem _ List.mem_cons_self
  | _ => cases behind

/-- A form pays to nobody, or it is multisig, or it asks for one signature and has one payee at
most. -/
theorem payees_cases :
    (form.outputClass ∈ OutputClass.unpaid ∧ form.required = 0 ∧ form.addresses = []) ∨
      (∃ m, form = multiSig m) ∨
      (form.outputClass.IsSingle ∧ form.required = 1 ∧ form.addresses.length ≤ 1) := by
  cases form with
  | nonStandard | nullData | treasuryAdd => exact .inl ⟨by decide, rfl, rfl⟩
  | multiSig m => exact .inr (.inl ⟨m, rfl⟩)
  | pubKey | pubKeyAlt | pubKeyHash | pubKeyHashAlt | scriptHash =>
      refine .inr (.inr ⟨?_, rfl, Option.length_toList_le⟩)
      simp [outputClass, OutputClass.IsSingle, OutputClass.unpaid]
  | tagged tag hash =>
      refine .inr (.inr ⟨tag.isSingle_outputClass, rfl, ?_⟩)
      cases hash <;> exact Option.length_toList_le

theorem addresses_of_unpaid (unpaid : form.outputClass ∈ OutputClass.unpaid) :
    form.addresses = [] := by
  rcases form.payees_cases with ⟨_, _, nobody⟩ | ⟨m, rfl⟩ | ⟨single, _, _⟩
  · exact nobody
  · exact absurd unpaid OutputClass.multiSig_not_mem_unpaid
  · exact absurd unpaid single.1

theorem payees_of_single (single : form.outputClass.IsSingle) :
    form.required = 1 ∧ form.addresses.length ≤ 1 := by
  rcases form.payees_cases with ⟨unpaid, _, _⟩ | ⟨m, rfl⟩ | ⟨_, payees⟩
  · exact absurd unpaid single.1
  · exact absurd rfl single.2
  · exact payees

theorem length_addresses_multiSig_le (m : MultiSig) :
    (multiSig m).addresses.length ≤ m.keys.length :=
  calc (multiSig m).addresses.length
    _ ≤ m.strictKeys.length := List.length_filterMap_le _ _
    _ ≤ m.keys.length := List.length_filter_le _ _

end Shape

section Read

variable {policy : Policy} {tokens : List Token} {form : Form} {address : Address}

theorem required_eq_zero_iff (read : form.ReadFrom policy tokens) :
    form.required = 0 ↔ form.outputClass ∈ OutputClass.unpaid := by
  rcases form.payees_cases with ⟨unpaid, none, _⟩ | ⟨m, rfl⟩ | ⟨single, one, _⟩
  · exact iff_of_true none unpaid
  · obtain ⟨pos, _, _⟩ := MultiSig.bounds_of_ofTokens? read
    exact iff_of_false (Nat.ne_of_gt pos) OutputClass.multiSig_not_mem_unpaid
  · exact iff_of_false (by omega) single.1

theorem multiSig_bounds (read : form.ReadFrom policy tokens)
    (isMultiSig : form.outputClass = .multiSig) :
    1 ≤ form.required ∧ form.required ≤ 16 ∧ form.addresses.length ≤ 16 := by
  cases form with
  | multiSig m =>
      obtain ⟨pos, few, keys⟩ := MultiSig.bounds_of_ofTokens? read
      exact ⟨pos, few, Nat.le_trans (length_addresses_multiSig_le m) keys⟩
  | tagged tag hash => exact absurd isMultiSig tag.isSingle_outputClass.2
  | _ => cases isMultiSig

/-- A form with a single key is that of an accepted key in its one spelling. -/
theorem exists_keyForm (read : form.ReadFrom policy tokens)
    (wellFormed : ∀ t ∈ tokens, t.WellFormed)
    (isKey : form.outputClass = .pubKey ∨ form.outputClass = .pubKeyAlt) :
    ∃ (scheme : SignatureScheme) (key : Bytes),
      form = scheme.keyForm key ∧ scheme.Accepts key ∧ tokens = scheme.keyTokens key := by
  cases form with
  | pubKey key =>
      obtain ⟨strict, spelled⟩ := (pubKey?_eq_some_iff wellFormed).mp read
      exact ⟨.ecdsa, key, rfl, strict, spelled⟩
  | pubKeyAlt key scheme =>
      obtain ⟨other, accepted, spelled⟩ := (pubKeyAlt?_eq_some_iff wellFormed).mp read
      exact ⟨scheme, key, (SignatureScheme.keyForm_of_ne other key).symm, accepted, spelled⟩
  | tagged tag hash => cases tag <;> simp [outputClass, Tag.outputClass] at isKey
  | _ => simp [outputClass] at isKey

/-- A hash has an address of the kind that the class names, because the token that pushes it holds
as many bytes as its opcode says. -/
theorem exists_address_of_hashed (read : form.ReadFrom policy tokens)
    (wellFormed : ∀ t ∈ tokens, t.WellFormed)
    (hashed : form.outputClass ∈ OutputClass.hashed ∨ form.outputClass.IsTagged) :
    ∃ address, form.addresses = [address] ∧
      address.paymentClass = form.innerClass?.getD form.outputClass := by
  cases form with
  | pubKeyHash hash =>
      obtain ⟨kept, rfl, _⟩ := (pubKeyHash?_eq_some_iff wellFormed).mp read
      exact ⟨_, addresses_pubKeyHash kept, rfl⟩
  | pubKeyHashAlt hash scheme =>
      obtain ⟨other, kept, rfl, _⟩ := (pubKeyHashAlt?_eq_some_iff wellFormed).mp read
      exact ⟨_, addresses_pubKeyHashAlt kept scheme, Address.paymentClass_of_ne other⟩
  | scriptHash hash =>
      obtain ⟨kept, rfl, _⟩ := (scriptHash?_eq_some_iff wellFormed).mp read
      exact ⟨_, addresses_scriptHash kept, rfl⟩
  | tagged tag hash =>
      obtain ⟨_, paid, rfl, _⟩ := (tagged?_eq_some_iff wellFormed).mp read
      refine ⟨_, addresses_tagged tag paid, ?_⟩
      cases paid <;> rfl
  | _ => simp [outputClass, OutputClass.hashed, OutputClass.IsTagged, OutputClass.isStake] at hashed

/-- The form alone does not say that there is an address. -/
example : (pubKeyHash [0x01]).addresses = [] := rfl

theorem exists_key_of_missing (read : form.ReadFrom policy tokens)
    (wellFormed : ∀ t ∈ tokens, t.WellFormed) (single : form.outputClass.IsSingle)
    (missing : form.addresses = []) :
    ∃ (scheme : SignatureScheme) (key : Bytes), tokens = scheme.keyTokens key ∧
      (scheme = .ecdsa ∧ form.outputClass = .pubKey ∨
        scheme = .schnorr ∧ form.outputClass = .pubKeyAlt) ∧
      Curve.Point.decode? key = none := by
  have isKey : form.outputClass = .pubKey ∨ form.outputClass = .pubKeyAlt := by
    by_contra other
    have hashed := single.key_or_hash.resolve_left other
    obtain ⟨address, one, _⟩ := exists_address_of_hashed read wellFormed hashed
    rw [missing] at one
    cases one
  obtain ⟨scheme, key, rfl, accepted, spelled⟩ := exists_keyForm read wellFormed isKey
  rw [addresses_keyForm, toList_toOption_eq_nil_iff] at missing
  obtain ⟨other, off⟩ := decode?_eq_none_of_refused accepted missing
  refine ⟨scheme, key, spelled, ?_, off⟩
  cases scheme with
  | ecdsa => exact .inl ⟨rfl, rfl⟩
  | ed25519 => exact absurd rfl other
  | schnorr => exact .inr ⟨rfl, rfl⟩

/-- An Ed25519 key is any 32 bytes, so it is never without an address. -/
theorem length_addresses_of_edwards (read : form.ReadFrom policy tokens)
    (wellFormed : ∀ t ∈ tokens, t.WellFormed) (isKey : form.outputClass = .pubKeyAlt)
    {key : Bytes} (spelled : tokens = SignatureScheme.ed25519.keyTokens key) :
    form.addresses.length = 1 := by
  have single : form.outputClass.IsSingle := by
    rw [isKey]
    decide
  have present : form.addresses ≠ [] := by
    intro missing
    obtain ⟨scheme, found, same, kind, _⟩ := exists_key_of_missing read wellFormed single missing
    obtain ⟨rfl, _⟩ := SignatureScheme.keyTokens_inj.mp (same.symm.trans spelled)
    rcases kind with ⟨other, _⟩ | ⟨other, _⟩ <;> cases other
  exact Nat.le_antisymm (form.payees_of_single single).2 (List.length_pos_of_ne_nil present)

theorem addresses_eq_of_mem (payee : address ∈ form.addresses)
    (single : form.outputClass.IsSingle) : form.addresses = [address] := by
  obtain ⟨_, one⟩ := form.payees_of_single single
  obtain ⟨found, alone⟩ :=
    List.length_eq_one_iff.mp (Nat.le_antisymm one (List.length_pos_of_mem payee))
  rw [alone, List.mem_singleton] at payee
  rw [alone, payee]

theorem paymentClass_of_single (read : form.ReadFrom policy tokens)
    (wellFormed : ∀ t ∈ tokens, t.WellFormed) (single : form.outputClass.IsSingle)
    (alone : form.addresses = [address]) :
    address.paymentClass = form.innerClass?.getD form.outputClass := by
  rcases single.key_or_hash with isKey | hashed
  · obtain ⟨scheme, key, rfl, _, _⟩ := exists_keyForm read wellFormed isKey
    rw [addresses_keyForm] at alone
    rw [(kind_of_addressOfKey (toList_toOption_eq_singleton_iff.mp alone)).1]
    cases scheme <;> rfl
  · obtain ⟨found, one, kind⟩ := exists_address_of_hashed read wellFormed hashed
    obtain rfl : found = address := List.singleton_inj.mp (one.symm.trans alone)
    exact kind

theorem paymentClass_of_multiSig {m : MultiSig} (payee : address ∈ (multiSig m).addresses) :
    address.paymentClass = .pubKey := by
  obtain ⟨key, _, made⟩ := List.mem_filterMap.mp payee
  obtain ⟨point, rfl⟩ := Address.exists_ofPoint_of_ofSecpKey (toOption_eq_some_iff.mp made)
  rfl

/-- A payee is of the kind that the classes name. -/
theorem paymentClass_of_mem_addresses (read : form.ReadFrom policy tokens)
    (wellFormed : ∀ t ∈ tokens, t.WellFormed) (payee : address ∈ form.addresses) :
    address.paymentClass = Classification.payeeClass ⟨form.outputClass, form.innerClass?⟩ := by
  rcases form.payees_cases with ⟨_, _, nobody⟩ | ⟨m, rfl⟩ | ⟨single, _, _⟩
  · rw [nobody] at payee
    cases payee
  · exact paymentClass_of_multiSig payee
  · rw [Classification.payeeClass, if_neg single.2]
    exact paymentClass_of_single read wellFormed single (addresses_eq_of_mem payee single)

/-- The tokens end by checking a signature of the payee's scheme. -/
theorem checkTokens_suffix_of_single (read : form.ReadFrom policy tokens)
    (wellFormed : ∀ t ∈ tokens, t.WellFormed) (single : form.outputClass.IsSingle)
    (alone : form.addresses = [address]) {scheme : SignatureScheme}
    (asked : address.scheme? = some scheme) : scheme.checkTokens <:+ tokens := by
  have payment := Address.checkTokens_suffix_paymentTokens asked
  rcases single.key_or_hash with isKey | hashed | tagged
  · obtain ⟨found, key, rfl, _, spelled⟩ := exists_keyForm read wellFormed isKey
    rw [addresses_keyForm] at alone
    have kind := kind_of_addressOfKey (toList_toOption_eq_singleton_iff.mp alone)
    rw [kind.2] at asked
    cases asked
    rw [spelled]
    exact List.suffix_cons _ _
  · have direct := List.mem_append_left [OutputClass.pubKeyAlt] hashed
    rw [tokens_eq_of_direct read wellFormed alone direct]
    exact payment
  · obtain ⟨tag, same⟩ := tagged.exists_tag
    rw [tokens_eq_of_tag read wellFormed alone tag same]
    exact payment.trans (List.suffix_cons _ _)

end Read

end Form

/-- How the payees of a script fit its tokens and its classification. The class decides how many
signatures are asked for and how many payees there can be. -/
structure Payees.Fits (tokens : List Token) (c : Classification) (found : Payees) : Prop where
  outputClass : found.outputClass = c.outputClass
  inner_isSome : c.inner.isSome ↔ found.outputClass.IsTagged
  inner_hash : ∀ inner ∈ c.inner, inner ∈ [OutputClass.pubKeyHash, .scriptHash]
  required_eq_zero : found.required = 0 ↔ found.outputClass ∈ OutputClass.unpaid
  unpaid : found.outputClass ∈ OutputClass.unpaid → found.addresses = []
  multiSig : found.outputClass = .multiSig →
    1 ≤ found.required ∧ found.required ≤ 16 ∧ found.addresses.length ≤ 16
  single : found.outputClass.IsSingle → found.required = 1 ∧ found.addresses.length ≤ 1
  hashed : found.outputClass ∈ OutputClass.hashed ∨ found.outputClass.IsTagged →
    found.addresses.length = 1
  edwards : found.outputClass = .pubKeyAlt →
    ∀ key, tokens = SignatureScheme.ed25519.keyTokens key → found.addresses.length = 1
  /-- Only a secp256k1 key can be without an address, because there is no such point. -/
  missing : found.outputClass.IsSingle → found.addresses = [] →
    ∃ (scheme : SignatureScheme) (key : Bytes), tokens = scheme.keyTokens key ∧
      (scheme = .ecdsa ∧ found.outputClass = .pubKey ∨
        scheme = .schnorr ∧ found.outputClass = .pubKeyAlt) ∧
      Curve.Point.decode? key = none
  /-- The classes name the kind of the payees. -/
  kind : ∀ address ∈ found.addresses, address.paymentClass = c.payeeClass
  /-- A payee signs by the scheme that the script checks. -/
  scheme : found.outputClass ≠ .multiSig →
    ∀ address ∈ found.addresses, ∀ scheme ∈ address.scheme?, scheme.checkTokens <:+ tokens

theorem Form.fits_payees {policy : Policy} {tokens : List Token} {form : Form}
    (read : form.ReadFrom policy tokens) (wellFormed : ∀ t ∈ tokens, t.WellFormed) :
    form.payees.Fits tokens ⟨form.outputClass, form.innerClass?⟩ where
  outputClass := rfl
  inner_isSome := form.isSome_innerClass?_iff
  inner_hash _ := form.mem_of_mem_innerClass?
  required_eq_zero := required_eq_zero_iff read
  unpaid := form.addresses_of_unpaid
  multiSig := multiSig_bounds read
  single := form.payees_of_single
  hashed hashed := by
    obtain ⟨address, one, _⟩ := exists_address_of_hashed read wellFormed hashed
    exact List.length_eq_one_iff.mpr ⟨address, one⟩
  edwards isKey _ spelled := length_addresses_of_edwards read wellFormed isKey spelled
  missing := exists_key_of_missing read wellFormed
  kind _ payee := paymentClass_of_mem_addresses read wellFormed payee
  scheme notMultiSig _ payee _ asked := by
    have single : form.outputClass.IsSingle := by
      refine ⟨?_, notMultiSig⟩
      intro unpaid
      rw [payees, form.addresses_of_unpaid unpaid] at payee
      cases payee
    have alone := addresses_eq_of_mem payee single
    exact checkTokens_suffix_of_single read wellFormed single alone asked

/-- Whenever the payees of a script can be asked for, they fit its tokens and its classification. -/
theorem payees_fit_classification {version : UInt16} {script : Bytes} {policy : Policy}
    {found : Payees} (read : payees version script policy = .ok found) :
    found.outputClass = OutputClass.ofScript version script policy ∧
      ∃ tokens, tokenize version script = .ok tokens ∧
        found.Fits tokens (classify version script policy) := by
  obtain ⟨tokens, tokenized, rfl⟩ := payees_eq_ok_iff.mp read
  have classified := classify_of_tokenize tokenized policy
  have form := Form.readFrom_ofTokens policy tokens
  have fits := Form.fits_payees form (wellFormed_of_tokenize tokenized)
  rw [← classified] at fits
  exact ⟨fits.outputClass, tokens, tokenized, fits⟩

/-- A script with a Schnorr key that has the form of a point but is none. -/
def offCurve : Bytes := [0x21, 0x02] ++ List.replicate 31 0x00 ++ [0x05, 0x52, 0xbe]

theorem payees_fit_classification_offCurve :
    payees 0 offCurve .withoutTreasury = .ok ⟨.pubKeyAlt, [], 1⟩ ∧
      OutputClass.ofScript 0 offCurve .withoutTreasury = .pubKeyAlt ∧
      ∃ key, tokenize 0 offCurve = .ok (SignatureScheme.schnorr.keyTokens key) ∧
        Curve.Point.decode? key = none := by
  have read : payees 0 offCurve .withoutTreasury = .ok ⟨.pubKeyAlt, [], 1⟩ := by decide +kernel
  obtain ⟨same, tokens, tokenized, fits⟩ := payees_fit_classification read
  obtain ⟨scheme, key, rfl, kind, off⟩ := fits.missing (by decide) rfl
  refine ⟨read, same.symm, key, ?_, off⟩
  rcases kind with ⟨_, other⟩ | ⟨rfl, _⟩
  · cases other
  · exact tokenized

end LockingScript
