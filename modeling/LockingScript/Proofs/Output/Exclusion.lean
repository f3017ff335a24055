import LockingScript.Proofs.Output.MultiSig

/-!
# No two forms are read from the same tokens

The number of tokens and the opcode of the last one tell which reader can accept them. So the order
in which the readers are tried does not matter, and a form that is read is the form of the script.
-/

namespace LockingScript

namespace Form

variable {policy : Policy} {tokens : List Token} {form other : Form}

/-- There are so many tokens, and the last one has the opcode. -/
def EndsWith (tokens : List Token) (count : Nat) (last : Opcode) : Prop :=
  tokens.length = count ∧ tokens.getLast?.map Token.opcode = some last

theorem EndsWith.cons {count : Nat} {last : Opcode} (ends : EndsWith tokens count last)
    (first : Token) : EndsWith (first :: tokens) (count + 1) last := by
  obtain ⟨length, opcode⟩ := ends
  refine ⟨by rw [List.length_cons, length], ?_⟩
  cases tokens with
  | nil => cases opcode
  | cons second rest => rwa [List.getLast?_cons_cons]

theorem endsWith_of_pubKey? {key : Bytes} (found : pubKey? tokens = some key) :
    EndsWith tokens 2 .checkSig := by
  unfold pubKey? at found
  split at found
  · split at found
    · rename_i shape
      exact ⟨rfl, congrArg some shape.1⟩
    · cases found
  · cases found

theorem endsWith_of_pubKeyHash? {hash : Bytes} (found : pubKeyHash? tokens = some hash) :
    EndsWith tokens 5 .checkSig := by
  unfold pubKeyHash? at found
  split at found
  · split at found
    · rename_i opcodes
      exact ⟨rfl, congrArg some opcodes.2.2.2.2⟩
    · cases found
  · cases found

theorem endsWith_of_pubKeyAlt? {key : Bytes × SignatureScheme}
    (found : pubKeyAlt? tokens = some key) : EndsWith tokens 3 .checkSigAlt := by
  unfold pubKeyAlt? at found
  split at found
  · split at found
    · rename_i opcode
      exact ⟨rfl, congrArg some opcode⟩
    · cases found
  · cases found

theorem endsWith_of_pubKeyHashAlt? {hash : Bytes × SignatureScheme}
    (found : pubKeyHashAlt? tokens = some hash) : EndsWith tokens 6 .checkSigAlt := by
  unfold pubKeyHashAlt? at found
  split at found
  · split at found
    · rename_i opcodes
      exact ⟨rfl, congrArg some opcodes.2.2.2.2⟩
    · cases found
  · cases found

theorem endsWith_of_scriptHash? {hash : Bytes} (found : scriptHash? tokens = some hash) :
    EndsWith tokens 3 .equal := by
  unfold scriptHash? at found
  split at found
  · split at found
    · rename_i opcodes
      exact ⟨rfl, congrArg some opcodes.2.2⟩
    · cases found
  · cases found

theorem endsWith_of_multiSig {m : MultiSig} (found : MultiSig.ofTokens? tokens = some m) :
    EndsWith tokens tokens.length .checkMultiSig := by
  obtain ⟨first, slots, count, last, rfl, layout⟩ := MultiSig.ofTokens?_eq_some_iff.mp found
  refine ⟨rfl, ?_⟩
  have split : first :: (slots ++ [count, last]) = (first :: (slots ++ [count])) ++ [last] := by
    simp
  rw [split, List.getLast?_concat, Option.map_some, layout.check]

theorem endsWith_of_isNullData (found : isNullData tokens = true) :
    EndsWith tokens 1 .opReturn ∨
      ∃ push : Opcode, EndsWith tokens 2 push ∧ (push.IsPush ∨ push.smallInt?.isSome = true) := by
  unfold isNullData at found
  split at found
  · exact .inl ⟨rfl, congrArg some (of_decide_eq_true found)⟩
  · rename_i push
    simp only [Bool.and_eq_true, Bool.or_eq_true, decide_eq_true_eq] at found
    exact .inr ⟨push.opcode, ⟨rfl, rfl⟩, found.1.2⟩
  · cases found

theorem endsWith_of_tagged? {found : Tag × TaggedHash}
    (accepted : tagged? policy tokens = some found) :
    EndsWith tokens 6 .checkSig ∨ EndsWith tokens 4 .equal := by
  unfold tagged? at accepted
  split at accepted
  · cases accepted
  · rename_i tag inner
    split at accepted
    · rename_i hashFound
      exact .inl ((endsWith_of_pubKeyHash? hashFound).cons tag)
    · rename_i hashFound
      exact .inr ((endsWith_of_scriptHash? hashFound).cons tag)
    · cases accepted

theorem endsWith_of_isTreasuryAdd (found : isTreasuryAdd policy tokens = true) :
    EndsWith tokens 1 .tadd := by
  simp only [isTreasuryAdd, Bool.and_eq_true, decide_eq_true_eq] at found
  obtain ⟨add, rfl, opcode⟩ := List.map_eq_singleton_iff.mp found.2
  exact ⟨rfl, congrArg some opcode⟩

/-- The place of the form's reader in the order in which they are tried. -/
def rank : Form → Nat
  | pubKey _ => 0
  | pubKeyHash _ => 1
  | pubKeyAlt _ _ => 2
  | pubKeyHashAlt _ _ => 3
  | scriptHash _ => 4
  | multiSig _ => 5
  | nullData => 6
  | tagged _ _ => 7
  | treasuryAdd => 8
  | nonStandard => 9

/-- The place of the one reader that can accept so many tokens with this last opcode. -/
def rankOfEnding (count : Nat) (last : Opcode) : Nat :=
  if last = .checkMultiSig then 5
  else if last = .checkSig then if count = 2 then 0 else if count = 5 then 1 else 7
  else if last = .checkSigAlt then if count = 3 then 2 else 3
  else if last = .equal then if count = 3 then 4 else 7
  else if last = .tadd then 8
  else 6

theorem rankOfEnding_of_push {push : Opcode} (pushes : push.IsPush ∨ push.smallInt?.isSome = true)
    (count : Nat) : rankOfEnding count push = 6 := by
  have every : ∀ op ∈ [Opcode.checkMultiSig, .checkSig, .checkSigAlt, .equal, .tadd],
      ¬ (op.IsPush ∨ op.smallInt?.isSome = true) := by decide
  have other {op : Opcode}
      (listed : op ∈ [Opcode.checkMultiSig, .checkSig, .checkSigAlt, .equal, .tadd]) :
      push ≠ op := by
    rintro rfl
    exact every push listed pushes
  unfold rankOfEnding
  rw [if_neg (other (by simp)), if_neg (other (by simp)), if_neg (other (by simp)),
    if_neg (other (by simp)), if_neg (other (by simp))]

theorem exists_endsWith_of_readFrom (read : form.ReadFrom policy tokens)
    (standard : form ≠ nonStandard) :
    ∃ count last, EndsWith tokens count last ∧ rankOfEnding count last = form.rank := by
  cases form with
  | nonStandard => exact absurd rfl standard
  | pubKey key => exact ⟨2, _, endsWith_of_pubKey? read, rfl⟩
  | pubKeyHash hash => exact ⟨5, _, endsWith_of_pubKeyHash? read, rfl⟩
  | pubKeyAlt key scheme => exact ⟨3, _, endsWith_of_pubKeyAlt? read, rfl⟩
  | pubKeyHashAlt hash scheme => exact ⟨6, _, endsWith_of_pubKeyHashAlt? read, rfl⟩
  | scriptHash hash => exact ⟨3, _, endsWith_of_scriptHash? read, rfl⟩
  | multiSig m => exact ⟨_, _, endsWith_of_multiSig read, rfl⟩
  | nullData =>
      rcases endsWith_of_isNullData read with bare | ⟨push, ends, pushes⟩
      · exact ⟨1, _, bare, rfl⟩
      · exact ⟨2, push, ends, rankOfEnding_of_push pushes 2⟩
  | tagged tag hash =>
      rcases endsWith_of_tagged? read with ends | ends
      · exact ⟨6, _, ends, rfl⟩
      · exact ⟨4, _, ends, rfl⟩
  | treasuryAdd => exact ⟨1, _, endsWith_of_isTreasuryAdd read, rfl⟩

theorem rank_eq_of_endsWith (read : form.ReadFrom policy tokens) (standard : form ≠ nonStandard)
    {count : Nat} {last : Opcode} (ends : EndsWith tokens count last) :
    form.rank = rankOfEnding count last := by
  obtain ⟨found, opcode, endsFound, rank⟩ := exists_endsWith_of_readFrom read standard
  have sameCount : found = count := endsFound.1.symm.trans ends.1
  have sameLast : opcode = last := Option.some.inj (endsFound.2.symm.trans ends.2)
  rw [← rank, sameCount, sameLast]

theorem rank_eq_of_readFrom (read : form.ReadFrom policy tokens) (standard : form ≠ nonStandard)
    (readOther : other.ReadFrom policy tokens) (standardOther : other ≠ nonStandard) :
    form.rank = other.rank := by
  obtain ⟨count, last, ends, rank⟩ := exists_endsWith_of_readFrom read standard
  rw [← rank, rank_eq_of_endsWith readOther standardOther ends]

/-- The reader at the form's place gives the form. -/
theorem exists_reader_of_readFrom (read : form.ReadFrom policy tokens)
    (standard : form ≠ nonStandard) :
    ∃ reader, (readers policy)[form.rank]? = some reader ∧ reader tokens = some form := by
  cases form with
  | nonStandard => exact absurd rfl standard
  | pubKey key => exact ⟨_, rfl, congrArg (Option.map pubKey) read⟩
  | pubKeyHash hash => exact ⟨_, rfl, congrArg (Option.map pubKeyHash) read⟩
  | pubKeyAlt key scheme =>
      exact ⟨_, rfl, congrArg (Option.map fun found => pubKeyAlt found.1 found.2) read⟩
  | pubKeyHashAlt hash scheme =>
      exact ⟨_, rfl, congrArg (Option.map fun found => pubKeyHashAlt found.1 found.2) read⟩
  | scriptHash hash => exact ⟨_, rfl, congrArg (Option.map scriptHash) read⟩
  | multiSig m => exact ⟨_, rfl, congrArg (Option.map multiSig) read⟩
  | nullData => exact ⟨_, rfl, if_pos read⟩
  | tagged tag hash =>
      exact ⟨_, rfl, congrArg (Option.map fun found => tagged found.1 found.2) read⟩
  | treasuryAdd => exact ⟨_, rfl, if_pos read⟩

theorem eq_of_readFrom (read : form.ReadFrom policy tokens) (standard : form ≠ nonStandard)
    (readOther : other.ReadFrom policy tokens) (standardOther : other ≠ nonStandard) :
    form = other := by
  obtain ⟨reader, place, accepted⟩ := exists_reader_of_readFrom read standard
  obtain ⟨readerOther, placeOther, acceptedOther⟩ :=
    exists_reader_of_readFrom readOther standardOther
  rw [rank_eq_of_readFrom read standard readOther standardOther, placeOther] at place
  rw [Option.some.inj place, accepted] at acceptedOther
  exact Option.some.inj acceptedOther

/-- A form that is read from the tokens is the form that they have. -/
theorem ofTokens_eq_of_readFrom (read : form.ReadFrom policy tokens)
    (standard : form ≠ nonStandard) : ofTokens policy tokens = form := by
  have chosen := readFrom_ofTokens policy tokens
  by_cases refused : ofTokens policy tokens = nonStandard
  · obtain ⟨reader, place, accepted⟩ := exists_reader_of_readFrom read standard
    rw [refused] at chosen
    rw [chosen reader (List.mem_of_getElem? place)] at accepted
    cases accepted
  · exact eq_of_readFrom chosen refused read standard

/-- Tokens that end in `CHECKMULTISIG` are a multisig script or have no standard form. -/
theorem ofTokens_of_checkMultiSig {count : Nat} (ends : EndsWith tokens count .checkMultiSig)
    (refused : MultiSig.ofTokens? tokens = none) : ofTokens policy tokens = nonStandard := by
  by_contra standard
  have chosen := readFrom_ofTokens policy tokens
  obtain ⟨_, last, found, rank⟩ := exists_endsWith_of_readFrom chosen standard
  obtain rfl : last = .checkMultiSig := Option.some.inj (found.2.symm.trans ends.2)
  obtain ⟨reader, place, accepted⟩ := exists_reader_of_readFrom chosen standard
  rw [← rank] at place
  cases place
  simp only [refused, Option.map_none, reduceCtorEq] at accepted

end Form

end LockingScript
