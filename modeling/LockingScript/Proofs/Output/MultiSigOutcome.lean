import LockingScript.Proofs.Output.MultiSigPayment

/-!
# What becomes of a multisig script

A key takes 34 bytes, so that 481 keys fit into a script and the next one does not, however long the
number of required signatures in front of them is. Whatever stands behind this key is not looked at.
Among the first 482 addresses, the first one that is no key is refused before the script is too
long.
-/

namespace LockingScript

/-- Whether the address holds a secp256k1 key. -/
def Address.IsSecpKey : Address → Prop
  | .secpKey _ => True
  | _ => False

instance : (address : Address) → Decidable address.IsSecpKey
  | .secpKey _ => isTrue trivial
  | .pubKeyHash _ _ | .scriptHash _ | .edwardsKey _ | .schnorrKey _ => isFalse id

theorem Address.exists_secpKey {address : Address} (secp : address.IsSecpKey) :
    ∃ key, secpKey key = address := by
  cases address with
  | secpKey key => exact ⟨key, rfl⟩
  | _ => exact absurd secp id

theorem Address.exists_map_secpKey {addresses : List Address}
    (secp : ∀ address ∈ addresses, address.IsSecpKey) :
    ∃ keys : List (BytesN 33), keys.map secpKey = addresses := by
  have ofKeys : addresses ∈ Set.range (List.map secpKey) := by
    rw [Set.range_list_map]
    exact fun address membership => exists_secpKey (secp address membership)
  exact ofKeys

namespace MultiSig

variable (keys : List (BytesN 33)) (required : Nat)

/-- The tokens before the ones of the addresses behind these keys. -/
def opening : List Token := Token.ofInt (Int64.ofNat required) :: keySlots keys

theorem sum_size_opening : ((opening keys required).map Token.size).sum =
    (Token.ofInt (Int64.ofNat required)).size + 34 * keys.length := by
  rw [opening, List.map_cons, List.sum_cons, sum_size_keySlots]

end MultiSig

namespace Script

open MultiSig

/-- The script before the addresses behind these keys are appended. -/
def opened (keys : List (BytesN 33)) (required : Nat) : Script :=
  ⟨(opening keys required).flatMap Token.bytes⟩

variable {keys : List (BytesN 33)} {required : Nat}

theorem size_opened : (opened keys required).size =
    (Token.ofInt (Int64.ofNat required)).size + 34 * keys.length := by
  rw [opened, size, Token.length_flatMap_bytes, sum_size_opening]

theorem build_opening (required : Nat) (fits : keys.length ≤ 481) :
    (empty.apply (.int (Int64.ofNat required)) >>= fun s =>
      (keys.map Address.secpKey).foldlM appendKey s) = .ok (opened keys required) := by
  have writes : List.Forall₂ Step.Writes
      (.int (Int64.ofNat required) :: keys.map fun key => Step.push key.val)
      (opening keys required) :=
    .cons (Step.writes_int _) (writes_keySlots keys)
  have short := Token.size_ofInt_le (Int64.ofNat required)
  have room : ((opening keys required).map Token.size).sum ≤ maxScriptSize := by
    rw [sum_size_opening, maxScriptSize]
    omega
  have built := build_of_writes writes room
  simpa only [build, opened, List.foldlM_cons, List.foldlM_map, appendKey] using built

/-- The first address that cannot be appended decides the error. -/
theorem multiSig_of_refused {next : Address} {rest : List Address} {cause : Error}
    (enough : required ≤ (keys.map Address.secpKey ++ next :: rest).length)
    (fits : keys.length ≤ 481)
    (refused : (opened keys required).appendKey next = .error cause) :
    multiSig (keys.map Address.secpKey ++ next :: rest) required = .error cause := by
  have built := build_opening required fits
  rw [multiSig, if_neg (Nat.not_lt_of_le enough)]
  simp only [List.foldlM_append, List.foldlM_cons]
  simp only [← bind_assoc]
  rw [built]
  simp only [bind, Except.bind, refused]

theorem appendKey_of_other {s : Script} {address : Address} (other : ¬ address.IsSecpKey) :
    s.appendKey address = .error (.notMultiSigKey address) := by
  cases address with
  | secpKey key => exact absurd trivial other
  | _ => rfl

/-- No script has room for one more key behind 481 of them. -/
theorem appendKey_of_full (length : keys.length = 481) (key : BytesN 33) :
    (opened keys required).appendKey (.secpKey key) =
      .error (.scriptTooBig ((Token.ofInt (Int64.ofNat required)).size + 34 * 482)) := by
  obtain ⟨-, encoded⟩ := Step.writes_bytesN key (by decide) (by decide)
  have width : (Token.mk (.data 33) key.val).bytes.length = 34 := by
    rw [Token.length_bytes, Token.size_direct (by decide), key.property]
  have full : (opened keys required).size + (Token.mk (.data 33) key.val).bytes.length =
      (Token.ofInt (Int64.ofNat required)).size + 34 * 482 := by
    rw [size_opened, length, width]
  have tooBig : maxScriptSize <
      (opened keys required).size + (Token.mk (.data 33) key.val).bytes.length := by
    rw [full, maxScriptSize]
    omega
  rw [appendKey, apply_of_encoding encoded, append_of_tooBig tooBig, full]

theorem multiSig_of_other {addresses : List Address} {other : Address}
    (enough : required ≤ addresses.length)
    (found : (addresses.take 482).find? (fun address => ¬ address.IsSecpKey) = some other) :
    multiSig addresses required = .error (.notMultiSigKey other) := by
  obtain ⟨isOther, front, back, split, before⟩ := List.find?_eq_some_iff_append.mp found
  have secp : ∀ address ∈ front, address.IsSecpKey := by simpa using before
  obtain ⟨keys, rfl⟩ := Address.exists_map_secpKey secp
  have whole : addresses = keys.map Address.secpKey ++ other :: (back ++ addresses.drop 482) := by
    rw [← List.cons_append, ← List.append_assoc, ← split, List.take_append_drop]
  have fits : keys.length ≤ 481 := by
    have within := List.length_take_le 482 addresses
    rw [split, List.length_append, List.length_map, List.length_cons] at within
    omega
  rw [whole] at enough ⊢
  exact multiSig_of_refused enough fits (appendKey_of_other (by simpa using isOther))

theorem multiSig_of_many {addresses : List Address} (enough : required ≤ addresses.length)
    (secp : ∀ address ∈ addresses.take 482, address.IsSecpKey) (many : 482 ≤ addresses.length) :
    multiSig addresses required =
      .error (.scriptTooBig ((Token.ofInt (Int64.ofNat required)).size + 34 * 482)) := by
  obtain ⟨keys, split⟩ := Address.exists_map_secpKey secp
  have length : keys.length = 482 := by
    rw [← List.length_map (f := Address.secpKey), split, List.length_take_of_le many]
  obtain ⟨front, last, rfl⟩ : ∃ front last, keys = front ++ [last] := by
    rcases List.eq_nil_or_concat keys with rfl | ⟨front, last, rfl⟩
    · cases length
    · exact ⟨front, last, List.concat_eq_append⟩
  have whole : addresses =
      front.map Address.secpKey ++ .secpKey last :: addresses.drop 482 := by
    conv => lhs; rw [← List.take_append_drop 482 addresses, ← split]
    simp
  have full : front.length = 481 := by simpa using length
  rw [whole] at enough ⊢
  exact multiSig_of_refused enough (Nat.le_of_eq full) (appendKey_of_full full last)

theorem multiSig_of_few {addresses : List Address} (enough : required ≤ addresses.length)
    (secp : ∀ address ∈ addresses, address.IsSecpKey) (few : addresses.length < 482) :
    ∃ keys script, addresses = keys.map Address.secpKey ∧
      multiSig addresses required = .ok script ∧ script.size ≤ 16384 ∧
      tokenize 0 script.bytes = .ok (tokens keys required) ∧
      (tokens keys required).length = addresses.length + 3 := by
  obtain ⟨keys, rfl⟩ := Address.exists_map_secpKey secp
  rw [List.length_map] at enough few ⊢
  have bound := sum_size_tokens_le keys required
  refine ⟨keys, _, rfl, multiSig_eq enough (by omega), ?_, tokenize_multiSig keys required,
    (endsWith_tokens keys required).1⟩
  rw [size, Token.length_flatMap_bytes]
  omega

/-- What becomes of a multisig script is decided by the first of these that applies: too few keys,
an address among the first 482 that is no key, too many keys. If none applies the script is made,
and it is read back as its two numbers with a push for each key between them. -/
theorem multiSig_outcome (addresses : List Address) (required : Nat) :
    (addresses.length < required →
      multiSig addresses required = .error (.tooManySignatures required addresses.length)) ∧
    (required ≤ addresses.length →
      (∀ other, (addresses.take 482).find? (fun address => ¬ address.IsSecpKey) = some other →
        multiSig addresses required = .error (.notMultiSigKey other)) ∧
      ((∀ address ∈ addresses.take 482, address.IsSecpKey) →
        (482 ≤ addresses.length → multiSig addresses required =
          .error (.scriptTooBig ((Token.ofInt (Int64.ofNat required)).size + 34 * 482))) ∧
        (addresses.length < 482 →
          ∃ keys script, addresses = keys.map Address.secpKey ∧
            multiSig addresses required = .ok script ∧ script.size ≤ 16384 ∧
            tokenize 0 script.bytes = .ok (tokens keys required) ∧
            (tokens keys required).length = addresses.length + 3))) := by
  refine ⟨fun tooFew => if_pos tooFew, fun enough => ⟨fun other => multiSig_of_other enough, ?_⟩⟩
  intro secp
  refine ⟨multiSig_of_many enough secp, ?_⟩
  intro few
  rw [List.take_of_length_le (Nat.le_of_lt few)] at secp
  exact multiSig_of_few enough secp few

theorem isSecpKey_of_mem_repeatedKey {count : Nat} :
    ∀ address ∈ repeatedKey count, address.IsSecpKey := by
  intro address membership
  obtain ⟨point, -, rfl⟩ := List.mem_map.mp membership
  trivial

/-- An address that no key of a multisig script can have. -/
def sampleOther : Address := .edwardsKey ⟨List.replicate 32 0x66, List.length_replicate⟩

/-- No key at all is enough for no signature. The key that does not fit hides what stands behind it,
but not what stands in its place. -/
theorem multiSig_outcome_limit :
    (([] : List Address).length < 1 ∧ multiSig [] 1 = .error (.tooManySignatures 1 0)) ∧
      (0 ≤ ([] : List Address).length ∧ ∃ script, multiSig [] 0 = .ok script ∧
        tokenize 0 script.bytes = .ok [⟨.zero, []⟩, ⟨.zero, []⟩, ⟨.checkMultiSig, []⟩]) ∧
      (1 ≤ (repeatedKey 482 ++ [sampleOther]).length ∧
        multiSig (repeatedKey 482 ++ [sampleOther]) 1 = .error (.scriptTooBig 16389)) ∧
      (1 ≤ (repeatedKey 481 ++ [sampleOther]).length ∧
        multiSig (repeatedKey 481 ++ [sampleOther]) 1 =
          .error (.notMultiSigKey sampleOther)) := by
  have long (count : Nat) : 1 ≤ (repeatedKey count ++ [sampleOther]).length := by simp
  have hidden : (repeatedKey 482 ++ [sampleOther]).take 482 = repeatedKey 482 :=
    List.take_left' (length_repeatedKey 482)
  have shown : (repeatedKey 481 ++ [sampleOther]).take 482 = repeatedKey 481 ++ [sampleOther] := by
    rw [List.take_of_length_le (by simp [length_repeatedKey])]
  refine ⟨⟨by decide, (multiSig_outcome [] 1).1 (by decide)⟩, ⟨Nat.le_refl 0, ?_⟩, ⟨long 482, ?_⟩,
    long 481, ?_⟩
  · obtain ⟨-, decided⟩ := (multiSig_outcome [] 0).2 (Nat.le_refl 0)
    obtain ⟨keys, script, same, made, -, read, -⟩ := (decided (by simp)).2 (by decide)
    obtain rfl : keys = [] := List.map_eq_nil_iff.mp same.symm
    exact ⟨script, made, read⟩
  · obtain ⟨-, decided⟩ := (multiSig_outcome (repeatedKey 482 ++ [sampleOther]) 1).2 (long 482)
    rw [hidden] at decided
    exact (decided isSecpKey_of_mem_repeatedKey).1 (by simp [length_repeatedKey])
  · obtain ⟨found, -⟩ := (multiSig_outcome (repeatedKey 481 ++ [sampleOther]) 1).2 (long 481)
    refine found sampleOther ?_
    have keys : (repeatedKey 481).find? (fun address => ¬ address.IsSecpKey) = none :=
      List.find?_eq_none.mpr (by simpa using isSecpKey_of_mem_repeatedKey)
    rw [shown, List.find?_append, keys]
    rfl

end Script

end LockingScript
