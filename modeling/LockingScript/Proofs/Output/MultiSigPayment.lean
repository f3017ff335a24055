import LockingScript.Proofs.Address.Keys
import LockingScript.Proofs.Output.Exclusion
import Mathlib.Data.Set.List

/-!
# Multisig scripts that are made

Both numbers of a multisig script are pushed as numbers, and every key directly. The reader takes
the numbers from opcodes that stand for them, and there are such opcodes up to 16. So it never takes
the scripts with 17 to 20 keys, although its limit on keys is 20.
-/

namespace LockingScript

namespace Token

variable {n : Nat}

theorem smallInt?_opcode_ofInt_of_le (small : n ≤ 16) :
    (ofInt (Int64.ofNat n)).opcode.smallInt? = some n := by
  rw [ofInt_ofNat small]
  exact Opcode.smallInt?_ofSmallInt small

theorem smallInt?_opcode_ofInt_of_lt (large : 16 < n) (fits : n < 2 ^ 63) :
    (ofInt (Int64.ofNat n)).opcode.smallInt? = none := by
  have worth : (Int64.ofNat n).toInt = n := Int64.toInt_ofNat_of_lt fits
  have nonempty : Number.encode (Int64.ofNat n).toInt ≠ [] := Number.encode_ne_nil (by omega)
  have short := Number.length_encode_le (Int64.ofNat n)
  rw [ofInt_direct (ne_negativeOne_of_nonneg (by omega)) (by omega)]
  exact Opcode.smallInt?_data (Nat.le_trans short (by decide)) (List.length_pos_of_ne_nil nonempty)

end Token

namespace MultiSig

section Spelling

variable (keys : List (BytesN 33)) (required : Nat)

/-- The steps that make a multisig script of these keys. -/
def steps : List Step :=
  .int (Int64.ofNat required) ::
    (keys.map (fun key => Step.push key.val) ++
      [.int (Int64.ofNat keys.length), .opcode .checkMultiSig])

def keySlots : List Token := keys.map fun key => ⟨.data 33, key.val⟩

def tokens : List Token :=
  Token.ofInt (Int64.ofNat required) ::
    (keySlots keys ++ [Token.ofInt (Int64.ofNat keys.length), ⟨.checkMultiSig, []⟩])

theorem length_keySlots : (keySlots keys).length = keys.length := List.length_map _

theorem writes_keySlots :
    List.Forall₂ Step.Writes (keys.map fun key => Step.push key.val) (keySlots keys) := by
  induction keys with
  | nil => exact .nil
  | cons key keys ih => exact .cons (Step.writes_bytesN key (by decide) (by decide)) ih

theorem writes_tokens : List.Forall₂ Step.Writes (steps keys required) (tokens keys required) := by
  apply List.Forall₂.cons (Step.writes_int _)
  apply List.rel_append (writes_keySlots keys)
  exact .cons (Step.writes_int _) <| .cons (Step.writes_opcode rfl) .nil

theorem sum_size_keySlots : ((keySlots keys).map Token.size).sum = 34 * keys.length := by
  induction keys with
  | nil => rfl
  | cons key keys ih =>
      have size : (Token.mk (.data 33) key.val).size = 34 := by
        rw [Token.size_direct (by decide), key.property]
      rw [keySlots, List.map_cons, List.map_cons, List.sum_cons, size, List.length_cons]
      rw [keySlots] at ih
      omega

theorem sum_size_tokens_le :
    ((tokens keys required).map Token.size).sum ≤ 34 * keys.length + 21 := by
  have first := Token.size_ofInt_le (Int64.ofNat required)
  have slots := sum_size_keySlots keys
  have count := Token.size_ofInt_le (Int64.ofNat keys.length)
  have last : (Token.mk .checkMultiSig []).size = 1 := rfl
  simp only [tokens, List.map_cons, List.map_append, List.map_nil, List.sum_cons, List.sum_append,
    List.sum_nil]
  omega

theorem endsWith_tokens :
    Form.EndsWith (tokens keys required) (keys.length + 3) .checkMultiSig := by
  constructor
  · simp [tokens, length_keySlots]
  · simp [tokens, List.getLast?_cons, List.getLast?_append]

end Spelling

variable {keys : List (BytesN 33)} {required : Nat}

theorem isKeySlot_of_mem_keySlots : ∀ t ∈ keySlots keys, isKeySlot t = true := by
  intro t membership
  obtain ⟨key, _, rfl⟩ := List.mem_map.mp membership
  rfl

theorem layout_of_le (pos : 0 < required) (enough : required ≤ keys.length)
    (few : keys.length ≤ 16) :
    Layout ⟨required, keys.map Subtype.val⟩ (Token.ofInt (Int64.ofNat required)) (keySlots keys)
      (Token.ofInt (Int64.ofNat keys.length)) ⟨.checkMultiSig, []⟩ where
  required := Token.smallInt?_opcode_ofInt_of_le (Nat.le_trans enough few)
  total := by
    rw [length_keySlots]
    exact Token.smallInt?_opcode_ofInt_of_le few
  check := rfl
  pos := pos
  required_le := by rwa [length_keySlots]
  length_le := by
    rw [length_keySlots]
    exact Nat.le_trans few (by decide)
  keySlots := isKeySlot_of_mem_keySlots
  keys := by
    rw [MultiSig.keySlots, List.map_map]
    rfl

theorem ofTokens?_tokens_of_le (pos : 0 < required) (enough : required ≤ keys.length)
    (few : keys.length ≤ 16) :
    ofTokens? (tokens keys required) = some ⟨required, keys.map Subtype.val⟩ :=
  ofTokens?_eq_some_iff.mpr ⟨_, _, _, _, rfl, layout_of_le pos enough few⟩

theorem ofTokens?_tokens_of_lt (many : 16 < keys.length) (fits : keys.length < 2 ^ 63) :
    ofTokens? (tokens keys required) = none := by
  apply Option.eq_none_iff_forall_ne_some.mpr
  intro m found
  obtain ⟨first, slots, count, last, spelled, layout⟩ := ofTokens?_eq_some_iff.mp found
  -- The last token but one pushes the number of keys, and no opcode stands for this number.
  have ends := (List.cons.inj spelled).2
  obtain ⟨_, ends⟩ := List.append_inj' ends rfl
  obtain ⟨rfl, _⟩ := List.cons.inj ends
  have total := layout.total
  rw [Token.smallInt?_opcode_ofInt_of_lt many fits] at total
  cases total

theorem payees_tokens_of_lt {keys : List (BytesN 33)} (many : 16 < keys.length)
    (fits : keys.length < 2 ^ 63) (policy : Policy) :
    (Form.ofTokens policy (tokens keys required)).payees = ⟨.nonStandard, [], 0⟩ := by
  have refused : ofTokens? (tokens keys required) = none := ofTokens?_tokens_of_lt many fits
  rw [Form.ofTokens_of_checkMultiSig (endsWith_tokens keys required) refused]
  rfl

/-- Every key of the script is a payee, in order and as often as it stands there. -/
theorem addresses_of_points (points : List Curve.Point) (required : Nat) :
    (Form.multiSig ⟨required, points.map fun p => p.compressed.val⟩).addresses =
      points.map Address.ofPoint := by
  have strict : (MultiSig.mk required (points.map fun p => p.compressed.val)).strictKeys =
      points.map fun p => p.compressed.val := by
    apply List.filter_eq_self.mpr
    intro key membership
    obtain ⟨point, _, rfl⟩ := List.mem_map.mp membership
    exact decide_eq_true (.inl point.isCompressedKey_compressed)
  have made (p : Curve.Point) : (Address.ofSecpKey p.compressed.val).toOption =
      some (Address.ofPoint p) := by
    rw [Address.ofSecpKey_compressed]
    rfl
  simp only [Form.addresses, strict, List.filterMap_map, Function.comp_def, made,
    List.filterMap_eq_map']

section Points

variable {points : List Curve.Point}

theorem exists_key_of_mem :
    ∀ address ∈ points.map Address.ofPoint, ∃ key, Address.ofSecpKey key = .ok address := by
  intro address membership
  obtain ⟨point, _, rfl⟩ := List.mem_map.mp membership
  exact ⟨_, Address.ofSecpKey_compressed point⟩

theorem ofTokens?_pointTokens_of_le (pos : 0 < required) (enough : required ≤ points.length)
    (few : points.length ≤ 16) :
    ofTokens? (tokens (points.map Curve.Point.compressed) required) =
      some ⟨required, points.map fun p => p.compressed.val⟩ := by
  rw [ofTokens?_tokens_of_le pos (by rwa [List.length_map]) (by rwa [List.length_map]),
    List.map_map]
  rfl

theorem payees_pointTokens_of_le (pos : 0 < required) (enough : required ≤ points.length)
    (few : points.length ≤ 16) (policy : Policy) :
    (Form.ofTokens policy (tokens (points.map Curve.Point.compressed) required)).payees =
      ⟨.multiSig, points.map Address.ofPoint, required⟩ := by
  have read : (Form.multiSig ⟨required, points.map fun p => p.compressed.val⟩).ReadFrom policy
      (tokens (points.map Curve.Point.compressed) required) :=
    ofTokens?_pointTokens_of_le pos enough few
  rw [Form.ofTokens_eq_of_readFrom read (by simp), Form.payees, addresses_of_points]
  rfl

end Points

end MultiSig

namespace Script

open MultiSig

/-- Keys are appended as data is pushed, so the script is built in steps. -/
theorem multiSig_secpKeys {keys : List (BytesN 33)} {required : Nat}
    (enough : required ≤ keys.length) :
    multiSig (keys.map .secpKey) required = build (steps keys required) := by
  rw [multiSig, List.length_map, if_neg (Nat.not_lt_of_le enough), build, steps, List.foldlM_cons]
  simp only [List.foldlM_append, List.foldlM_map, List.foldlM_cons, List.foldlM_nil, bind_pure,
    appendKey]

theorem multiSig_eq {keys : List (BytesN 33)} {required : Nat} (enough : required ≤ keys.length)
    (fits : keys.length ≤ 481) :
    multiSig (keys.map .secpKey) required = .ok ⟨(tokens keys required).flatMap Token.bytes⟩ := by
  rw [multiSig_secpKeys enough]
  apply build_of_writes (writes_tokens keys required)
  have size := sum_size_tokens_le keys required
  rw [maxScriptSize]
  omega

theorem tokenize_multiSig (keys : List (BytesN 33)) (required : Nat) :
    tokenize 0 ((tokens keys required).flatMap Token.bytes) = .ok (tokens keys required) :=
  tokenize_of_writes (writes_tokens keys required)

theorem multiSig_points {points : List Curve.Point} {required : Nat}
    (enough : required ≤ points.length) (fits : points.length ≤ 481) :
    multiSig (points.map Address.ofPoint) required =
      .ok ⟨(tokens (points.map Curve.Point.compressed) required).flatMap Token.bytes⟩ := by
  have length : (points.map Curve.Point.compressed).length = points.length := List.length_map _
  have made := multiSig_eq (length ▸ enough) (length ▸ fits)
  rwa [List.map_map] at made

/-- A script can be made for any keys of points, as far as there are enough of them. With up to 16
keys it is read as what it was made for, with 17 to 20 keys it has no standard form. -/
theorem payees_multiSig {keys : List Address} {required : Nat}
    (made : ∀ address ∈ keys, ∃ key, Address.ofSecpKey key = .ok address)
    (pos : 0 < required) (enough : required ≤ keys.length) (few : keys.length ≤ 20)
    (policy : Policy) :
    ∃ script, multiSig keys required = .ok script ∧
      (keys.length ≤ 16 →
        payees 0 script.bytes policy = .ok ⟨.multiSig, keys, required⟩ ∧
          ∃ m, MultiSig.ofScript script.bytes = .ok m ∧ m.keys.length = keys.length ∧
            m.required = required) ∧
      (16 < keys.length →
        payees 0 script.bytes policy = .ok ⟨.nonStandard, [], 0⟩ ∧
          MultiSig.ofScript script.bytes = .error .notMultiSig) := by
  have ofPoints : keys ∈ Set.range (List.map Address.ofPoint) := by
    rw [Set.range_list_map]
    intro address membership
    obtain ⟨key, accepted⟩ := made address membership
    exact Address.exists_ofPoint_of_ofSecpKey accepted
  obtain ⟨points, rfl⟩ := ofPoints
  rw [List.length_map] at enough few ⊢
  have read := tokenize_multiSig (points.map Curve.Point.compressed) required
  refine ⟨_, multiSig_points enough (by omega), ?_, ?_⟩
  · intro small
    have found := ofTokens?_pointTokens_of_le pos enough small
    refine ⟨payees_eq_ok_iff.mpr ⟨_, read, payees_pointTokens_of_le pos enough small policy⟩,
      ⟨required, points.map fun p => p.compressed.val⟩, ?_, List.length_map _, rfl⟩
    rw [ofScript_of_tokenize read, found]
    rfl
  · intro large
    have many : 16 < (points.map Curve.Point.compressed).length := by rwa [List.length_map]
    have fits : (points.map Curve.Point.compressed).length < 2 ^ 63 := by
      rw [List.length_map]
      omega
    refine ⟨payees_eq_ok_iff.mpr ⟨_, read, payees_tokens_of_lt many fits policy⟩, ?_⟩
    rw [ofScript_of_tokenize read, ofTokens?_tokens_of_lt many fits]
    rfl

/-- The key of one point over and over. -/
def repeatedKey (count : Nat) : List Address :=
  (List.replicate count Curve.Point.generator).map Address.ofPoint

theorem length_repeatedKey (count : Nat) : (repeatedKey count).length = count := by
  rw [repeatedKey, List.length_map, List.length_replicate]

theorem exists_key_of_mem_repeatedKey {count : Nat} :
    ∀ address ∈ repeatedKey count, ∃ key, Address.ofSecpKey key = .ok address :=
  exists_key_of_mem

/-- With one key 16 times the script is recognised, with one key 17 times it is not. -/
theorem payees_multiSig_repeatedKey :
    (∀ address ∈ repeatedKey 16, ∃ key, Address.ofSecpKey key = .ok address) ∧
      (∀ address ∈ repeatedKey 17, ∃ key, Address.ofSecpKey key = .ok address) ∧
      (∃ script, multiSig (repeatedKey 16) 16 = .ok script ∧
        payees 0 script.bytes .withTreasury = .ok ⟨.multiSig, repeatedKey 16, 16⟩) ∧
      ∃ script, multiSig (repeatedKey 17) 1 = .ok script ∧
        payees 0 script.bytes .withTreasury = .ok ⟨.nonStandard, [], 0⟩ := by
  have few := length_repeatedKey 16
  have many := length_repeatedKey 17
  obtain ⟨script, built, recognised, -⟩ :=
    payees_multiSig exists_key_of_mem_repeatedKey (by decide : 0 < 16) (by omega)
      (by omega : (repeatedKey 16).length ≤ 20) .withTreasury
  obtain ⟨other, builtOther, -, refused⟩ :=
    payees_multiSig exists_key_of_mem_repeatedKey (by decide : 0 < 1) (by omega)
      (by omega : (repeatedKey 17).length ≤ 20) .withTreasury
  exact ⟨exists_key_of_mem_repeatedKey, exists_key_of_mem_repeatedKey,
    ⟨script, built, (recognised (by omega)).1⟩, other, builtOther, (refused (by omega)).1⟩

theorem payees_multiSig_seventeen :
    ¬ ∀ (keys : List Address) (required : Nat) (policy : Policy),
      (∀ address ∈ keys, ∃ key, Address.ofSecpKey key = .ok address) →
      0 < required → required ≤ keys.length → keys.length ≤ 20 →
      ∃ script, multiSig keys required = .ok script ∧
        payees 0 script.bytes policy = .ok ⟨.multiSig, keys, required⟩ ∧
          ∃ m, MultiSig.ofScript script.bytes = .ok m ∧ m.keys.length = keys.length ∧
            m.required = required := by
  intro recognised
  have keys := length_repeatedKey 17
  have points : (List.replicate 17 Curve.Point.generator).length = 17 := List.length_replicate
  have compressed :
      ((List.replicate 17 Curve.Point.generator).map Curve.Point.compressed).length = 17 := by
    rw [List.length_map, points]
  obtain ⟨script, built, -, m, found, -⟩ :=
    recognised (repeatedKey 17) 1 .withoutTreasury exists_key_of_mem_repeatedKey (by decide)
      (by omega) (by omega)
  rw [repeatedKey, multiSig_points (by omega) (by omega), Except.ok.injEq] at built
  rw [← built, ofScript_of_tokenize (tokenize_multiSig _ 1),
    ofTokens?_tokens_of_lt (by omega) (by omega)] at found
  cases found

end Script

end LockingScript
