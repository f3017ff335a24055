import LockingScript.Proofs.Output.Exclusion

/-!
# The order of the readers does not matter

At most one of the readers accepts the tokens of a script, namely the one whose place is that of
the form. So the readers find the same form in any order, and with it the same class and payees.
-/

namespace LockingScript

namespace Form

variable {policy : Policy} {tokens : List Token} {form : Form}

section Place

variable {place : Nat} {reader : List Token → Option Form}

theorem rank_of_reader (listed : (readers policy)[place]? = some reader)
    (accepted : reader tokens = some form) : form.rank = place := by
  match place, listed with
  | 0, rfl | 1, rfl | 2, rfl | 3, rfl | 4, rfl | 5, rfl | 7, rfl =>
      obtain ⟨_, _, rfl⟩ := Option.map_eq_some_iff.mp accepted
      rfl
  | 6, rfl | 8, rfl =>
      obtain ⟨_, same⟩ := Option.ite_none_right_eq_some.mp accepted
      cases same
      rfl

/-- Whatever a reader gives is the form of the script. -/
theorem ofTokens_of_reader (listed : (readers policy)[place]? = some reader)
    (accepted : reader tokens = some form) : ofTokens policy tokens = form := by
  apply ofTokens_eq_of_readFrom (readFrom_of_reader listed accepted)
  rintro rfl
  obtain ⟨bound, _⟩ := List.getElem?_eq_some_iff.mp listed
  rw [← rank_of_reader listed accepted] at bound
  exact Nat.lt_irrefl 9 bound

/-- The reader at the form's place accepts the tokens, and no other reader does. -/
theorem isSome_reader_iff (listed : (readers policy)[place]? = some reader) :
    (reader tokens).isSome ↔ (ofTokens policy tokens).rank = place := by
  constructor
  · intro accepted
    obtain ⟨form, found⟩ := Option.isSome_iff_exists.mp accepted
    rw [ofTokens_of_reader listed found, rank_of_reader listed found]
  · rintro rfl
    have standard : ofTokens policy tokens ≠ nonStandard := by
      intro none
      rw [none] at listed
      cases listed
    obtain ⟨own, found, accepted⟩ :=
      exists_reader_of_readFrom (readFrom_ofTokens policy tokens) standard
    rw [found] at listed
    cases listed
    rw [accepted]
    rfl

end Place

/-- Which readers accept the tokens, in the order in which they are tried. -/
def acceptances (policy : Policy) (tokens : List Token) : List Bool :=
  [(pubKey? tokens).isSome, (pubKeyHash? tokens).isSome, (pubKeyAlt? tokens).isSome,
   (pubKeyHashAlt? tokens).isSome, (scriptHash? tokens).isSome,
   (MultiSig.ofTokens? tokens).isSome, isNullData tokens, (tagged? policy tokens).isSome,
   isTreasuryAdd policy tokens]

theorem acceptances_eq_map_readers (policy : Policy) (tokens : List Token) :
    acceptances policy tokens = (readers policy).map fun reader => (reader tokens).isSome := by
  have guarded (accepts : Bool) (form : Form) :
      (if accepts then some form else none).isSome = accepts := by cases accepts <;> rfl
  simp only [acceptances, readers, guarded, Option.isSome_map, List.map_cons, List.map_nil]

theorem acceptances_eq_map_range (policy : Policy) (tokens : List Token) :
    acceptances policy tokens =
      (List.range 9).map fun place => decide ((ofTokens policy tokens).rank = place) := by
  rw [acceptances_eq_map_readers]
  apply List.ext_getElem
  · rw [List.length_map, List.length_map, List.length_range]
    rfl
  · intro place bound _
    rw [List.length_map] at bound
    rw [List.getElem_map, List.getElem_map, List.getElem_range, Bool.eq_iff_iff,
      decide_eq_true_iff]
    exact isSome_reader_iff (List.getElem?_eq_getElem bound)

/-- One reader accepts the tokens if they have a standard form, and none does otherwise. -/
theorem count_acceptances (policy : Policy) (tokens : List Token) :
    (acceptances policy tokens).count true =
      if ofTokens policy tokens = nonStandard then 0 else 1 := by
  rw [acceptances_eq_map_range]
  cases ofTokens policy tokens <;> rfl

theorem ofTokens_eq_nonStandard_iff :
    ofTokens policy tokens = nonStandard ↔
      (ofTokens policy tokens).outputClass = .nonStandard := by
  cases ofTokens policy tokens with
  | tagged tag hash => cases tag <;> simp [outputClass, Tag.outputClass]
  | _ => simp [outputClass]

/-- The form that the first reader of a list to accept the tokens gives. -/
def firstOf (readers : List (List Token → Option Form)) (tokens : List Token) : Form :=
  (readers.findSome? fun reader => reader tokens).getD nonStandard

theorem firstOf_of_perm {order : List (List Token → Option Form)}
    (perm : order.Perm (readers policy)) : firstOf order = ofTokens policy := by
  funext tokens
  unfold firstOf
  cases search : order.findSome? fun reader => reader tokens with
  | none =>
      have refused := List.findSome?_eq_none_iff.mp search
      exact (ofTokens_of_refused fun reader listed =>
        refused reader (perm.mem_iff.mpr listed)).symm
  | some form =>
      obtain ⟨reader, tried, accepted⟩ := List.exists_of_findSome?_eq_some search
      obtain ⟨place, listed⟩ := List.mem_iff_getElem?.mp (perm.mem_iff.mp tried)
      exact (ofTokens_of_reader listed accepted).symm

end Form

/-- The classification by readers that are tried in the given order. -/
def classifyBy (order : List (List Token → Option Form)) (version : UInt16) (script : Bytes) :
    Classification :=
  match tokenize version script with
  | .ok tokens => ⟨(Form.firstOf order tokens).outputClass, (Form.firstOf order tokens).innerClass?⟩
  | .error _ => ⟨.nonStandard, none⟩

/-- The payees by readers that are tried in the given order. -/
def payeesBy (order : List (List Token → Option Form)) (version : UInt16) (script : Bytes) :
    Except MalformedPush Payees :=
  (tokenize version script).map fun tokens => (Form.firstOf order tokens).payees

theorem classifyBy_of_perm {order : List (List Token → Option Form)} {policy : Policy}
    (perm : order.Perm (Form.readers policy)) (version : UInt16) (script : Bytes) :
    classifyBy order version script = classify version script policy := by
  rw [classifyBy, Form.firstOf_of_perm perm]
  rfl

theorem payeesBy_of_perm {order : List (List Token → Option Form)} {policy : Policy}
    (perm : order.Perm (Form.readers policy)) (version : UInt16) (script : Bytes) :
    payeesBy order version script = payees version script policy := by
  rw [payeesBy, Form.firstOf_of_perm perm]
  rfl

/-- No two readers accept the same script, and one does exactly when the script has a standard
form. So in whatever order they are tried, a script has the same class and the same payees. -/
theorem readers_exclusive (version : UInt16) (script : Bytes) (policy : Policy) :
    (∀ tokens, tokenize version script = .ok tokens →
      (Form.acceptances policy tokens).count true =
        if OutputClass.ofScript version script policy = .nonStandard then 0 else 1) ∧
    ∀ order, order.Perm (Form.readers policy) →
      classifyBy order version script = classify version script policy ∧
        payeesBy order version script = payees version script policy := by
  constructor
  · intro tokens tokenized
    rw [Form.count_acceptances, OutputClass.ofScript, classify_of_tokenize tokenized]
    exact if_congr Form.ofTokens_eq_nonStandard_iff rfl rfl
  · intro order perm
    exact ⟨classifyBy_of_perm perm version script, payeesBy_of_perm perm version script⟩

/-- A multisig script with as many tokens as a tagged payment to a script hash has. -/
def shortMultiSig : Bytes := [0x51, 0x01, 0xff, 0x51, 0xae]

/-- With the readers tried in the opposite order, the script still has one form. -/
theorem readers_exclusive_shortMultiSig :
    (∃ tokens, tokenize 0 shortMultiSig = .ok tokens ∧
        (Form.acceptances .withTreasury tokens).count true = 1) ∧
      (Form.readers .withTreasury).reverse.Perm (Form.readers .withTreasury) ∧
      classifyBy (Form.readers .withTreasury).reverse 0 shortMultiSig = ⟨.multiSig, none⟩ ∧
      payeesBy (Form.readers .withTreasury).reverse 0 shortMultiSig = .ok ⟨.multiSig, [], 1⟩ := by
  obtain ⟨tokenized, classified, paid⟩ :
      tokenize 0 shortMultiSig =
          .ok [⟨⟨0x51⟩, []⟩, ⟨.data 1, [0xff]⟩, ⟨⟨0x51⟩, []⟩, ⟨.checkMultiSig, []⟩] ∧
        classify 0 shortMultiSig .withTreasury = ⟨.multiSig, none⟩ ∧
        payees 0 shortMultiSig .withTreasury = .ok ⟨.multiSig, [], 1⟩ := by
    decide +kernel
  obtain ⟨alone, anyOrder⟩ := readers_exclusive 0 shortMultiSig .withTreasury
  have perm := List.reverse_perm (Form.readers .withTreasury)
  obtain ⟨sameClass, samePayees⟩ := anyOrder _ perm
  refine ⟨⟨_, tokenized, ?_⟩, perm, sameClass.trans classified, samePayees.trans paid⟩
  rw [alone _ tokenized, OutputClass.ofScript, classified]
  rfl

end LockingScript
