import LockingScript.Bytes.LittleEndian
import LockingScript.Opcode.Name
import LockingScript.Proofs.Text.Words
import LockingScript.Text.Decimal

/-!
# Opcodes are found under their names

No two opcodes have the same short name, and no short name can be taken for another kind of word.
Both are settled by going through the 256 names. Comparing texts by their bytes keeps that short.
-/

namespace LockingScript.Opcode

/-- The bytes of a text as one number. -/
def textNumber (text : String) : Nat := LittleEndian.decode text.toUTF8.data.toList

/-- The characters of a text in ASCII. -/
def asciiCharacters (text : String) : List Char :=
  text.toUTF8.data.toList.map fun b => Char.ofNat b.toNat

/-- A word that is no marked name, no hexadecimal number and no quoted text. -/
def IsPlainName (name : List Char) : Prop :=
  Text.IsWord name ∧ ¬ ['O', 'P', '_'] <+: name ∧ ¬ ['0', 'x'] <+: name ∧ name.head? ≠ some '\''

instance (name : List Char) : Decidable (IsPlainName name) :=
  inferInstanceAs (Decidable (_ ∧ _))

/-- Whether the bits of the numbers are distinct, and none of them is set already. -/
def allFresh (seen : Nat) : List Nat → Bool
  | [] => true
  | n :: rest => ! seen.testBit n && allFresh (seen ||| 1 <<< n) rest

theorem nodup_of_allFresh {seen : Nat} {list : List Nat} (fresh : allFresh seen list) :
    list.Nodup ∧ ∀ n ∈ list, seen.testBit n = false := by
  induction list generalizing seen with
  | nil => simp
  | cons n rest ih =>
      simp only [allFresh, Bool.and_eq_true, Bool.not_eq_true'] at fresh
      obtain ⟨distinct, clear⟩ := ih fresh.2
      simp only [Nat.testBit_or, Bool.or_eq_false_iff] at clear
      have apart : n ∉ rest := by
        intro membership
        simpa using (clear n membership).2
      refine ⟨List.nodup_cons.mpr ⟨apart, distinct⟩, ?_⟩
      intro m membership
      rcases List.mem_cons.mp membership with rfl | later
      · exact fresh.1
      · exact (clear m later).1

/-- The numbers of the names differ even by their remainders. -/
theorem nodup_shortNames : shortNames.Nodup := by
  have fresh : allFresh 0 (shortNames.map fun name => textNumber name % 3738) := by
    decide +kernel
  apply List.Pairwise.of_map _ _ (nodup_of_allFresh fresh).1
  intro _ _ differ equality
  exact differ (by rw [equality])

theorem spelling_of_mem_shortNames {name : String} (membership : name ∈ shortNames) :
    name.toList = asciiCharacters name ∧ IsPlainName name.toList ∧ ']' ∉ name.toList := by
  have every : ∀ name ∈ shortNames, name = String.ofList (asciiCharacters name) ∧
      IsPlainName (asciiCharacters name) ∧ ']' ∉ asciiCharacters name := by decide +kernel
  obtain ⟨written, plain, noBracket⟩ := every name membership
  have characters : name.toList = asciiCharacters name := by
    rw [← String.toList_ofList (l := asciiCharacters name), ← written]
  rw [characters]
  exact ⟨rfl, plain, noBracket⟩

theorem shortName_mem (op : Opcode) : op.shortName ∈ shortNames :=
  List.getElem_mem _

theorem isPlainName_shortName (op : Opcode) : IsPlainName op.shortName.toList :=
  (spelling_of_mem_shortNames op.shortName_mem).2.1

theorem isBare_shortName (op : Opcode) : Text.IsBare op.shortName.toList := by
  obtain ⟨-, plain, noBracket⟩ := spelling_of_mem_shortNames op.shortName_mem
  intro c membership
  refine ⟨plain.1.2 c membership, ?_⟩
  rintro rfl
  exact noBracket membership

theorem isBareWord_shortName (op : Opcode) : Text.IsBareWord op.shortName.toList :=
  ⟨op.isPlainName_shortName.1.1, op.isBare_shortName⟩

theorem isBare_name (op : Opcode) : Text.IsBare op.name.toList := by
  rw [name, String.toList_append]
  exact Text.isBare_append (by decide) op.isBare_shortName

theorem isBareWord_constant? {op : Opcode} {n : Int} (constant : op.constant? = some n) :
    Text.IsBareWord (toString n).toList := by
  unfold constant? at constant
  split at constant
  · cases constant
    decide
  · obtain ⟨k, _, rfl⟩ := Option.map_eq_some_iff.mp constant
    exact Text.isBareWord_toString k

/-- Only the opcodes that push a number by themselves have a number for a name. -/
theorem int64?_shortName {op : Opcode} (noConstant : op.constant? = none) :
    Text.int64? op.shortName.toList = none := by
  have every : ∀ entry ∈ shortNames.zipIdx, constant? ⟨UInt8.ofNat entry.2⟩ = none →
      Text.int64? (asciiCharacters entry.1) = none := by decide +kernel
  have entry : (op.shortName, op.byte.toNat) ∈ shortNames.zipIdx :=
    List.mk_mem_zipIdx_iff_getElem?.mpr (List.getElem?_eq_getElem _)
  have checked := every _ entry
  rw [UInt8.ofNat_toNat] at checked
  rw [(spelling_of_mem_shortNames op.shortName_mem).1]
  exact checked noConstant

theorem bareName_shortName (op : Opcode) : bareName op.shortName = op.shortName := by
  have unmarked := op.isPlainName_shortName.2.1
  unfold bareName
  split
  · rename_i bare marked
    exact absurd (marked ▸ ⟨bare, rfl⟩) unmarked
  · rfl

theorem lookup_aliases_shortName (op : Opcode) : aliases.lookup op.shortName = none := by
  have every : ∀ name ∈ shortNames, aliases.lookup name = none := by decide +kernel
  exact every _ op.shortName_mem

theorem idxOf?_shortName (op : Opcode) : shortNames.idxOf? op.shortName = some op.byte.toNat := by
  rw [List.idxOf?_eq_some_iff]
  refine ⟨length_shortNames ▸ op.byte.toNat_lt, rfl, ?_⟩
  intro earlier before equality
  exact List.pairwise_iff_getElem.mp nodup_shortNames earlier op.byte.toNat _ _ before equality

theorem ofName?_shortName (op : Opcode) : ofName? op.shortName = some op := by
  simp only [ofName?, bareName_shortName, lookup_aliases_shortName, idxOf?_shortName]
  rw [Option.none_or, Option.map_some, UInt8.ofNat_toNat]

end LockingScript.Opcode
