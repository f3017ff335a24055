import LockingScript.Proofs.Number.Minimal
import LockingScript.Proofs.Token.Canonical

/-!
# Tokens that are read as numbers

Of all the ways to push a number only one is read as that number: the opcode that stands for it, or
the direct push of its encoding. The opcode for -1 is not read, its encoding is.
-/

namespace LockingScript

namespace Token

/-- A canonical push of few bytes is a direct one. -/
theorem eq_direct_of_isCanonical {t : Token} (wellFormed : t.WellFormed) (push : t.opcode.IsPush)
    (canonical : t.isCanonical = true) (short : t.data.length ≤ 75) :
    t = ⟨.data t.data.length, t.data⟩ := by
  obtain ⟨opcode, -⟩ := (isCanonical_iff wellFormed push).mp canonical
  rw [Opcode.forLength, if_pos short] at opcode
  rw [← opcode]

/-- The one token that is read as the number. -/
def numeral (n : Int64) : Token := if n = -1 then ⟨.data 1, [0x81]⟩ else ofInt n

theorem encode_negativeOne : Number.encode (-1 : Int64).toInt = [0x81] :=
  Number.encode_integer (b := [0x81]) (by decide)

variable {t : Token} {limit : Nat} {n : Int64}

theorem eq_numeral_of_smallInt? {k : Nat} (wellFormed : t.WellFormed)
    (small : t.opcode.smallInt? = some k) :
    (Number.encode (Int64.ofNat k).toInt).length ≤ 1 ∧ t = numeral (Int64.ofNat k) := by
  obtain ⟨opcode, bound⟩ := Opcode.ofSmallInt_of_smallInt? small
  have worth : (Int64.ofNat k).toInt = k := Int64.toInt_ofNat_of_lt (by omega)
  constructor
  · apply (Number.length_encode_le_iff (by decide)).mpr
    rw [worth]
    omega
  · rw [numeral, if_neg (ne_negativeOne_of_nonneg (by omega)), ofInt_ofNat bound]
    exact eq_of_fixed_zero wellFormed opcode.symm (Opcode.lengthRule_ofSmallInt bound)

theorem eq_numeral_of_push (wellFormed : t.WellFormed) (noConstant : t.opcode.smallInt? = none)
    (push : t.opcode.IsPush) (canonical : t.isCanonical = true) (short : t.data.length ≤ 8)
    (encoded : Number.encode n.toInt = t.data) : t = numeral n := by
  have direct := eq_direct_of_isCanonical wellFormed push canonical (by omega)
  have nonempty : t.data ≠ [] := by
    intro empty
    rw [direct, empty] at noConstant
    cases noConstant
  by_cases negative : n = -1
  · rw [negative, encode_negativeOne] at encoded
    rw [numeral, if_pos negative, direct, ← encoded]
    rfl
  · have notSmall : ¬ (0 ≤ n.toInt ∧ n.toInt ≤ 16) := by
      rintro ⟨low, high⟩
      have every : ∀ k < 17, Number.encode (Int.ofNat k) = [] ∨
          Number.encode (Int.ofNat k) = [UInt8.ofNat k] ∧ UInt8.ofNat k ≤ 16 := by
        decide +kernel
      have worth : Int.ofNat n.toInt.toNat = n.toInt := Int.toNat_of_nonneg low
      have form := every n.toInt.toNat (by omega)
      rw [worth, encoded] at form
      rcases form with empty | ⟨single, small⟩
      · exact nonempty empty
      · obtain ⟨-, large⟩ := (isCanonical_iff wellFormed push).mp canonical
        exact UInt8.not_lt.mpr small (large _ single)
    rw [numeral, if_neg negative, ofInt_direct negative notSmall, encoded]
    exact direct

/-- A token is read as a number exactly when it is the numeral of this number, and the number is
not too long. -/
theorem integer?_eq_some_iff (wellFormed : t.WellFormed) (pos : 0 < limit) (small : limit ≤ 8) :
    t.integer? limit = some n ↔ (Number.encode n.toInt).length ≤ limit ∧ t = numeral n := by
  constructor
  · intro found
    unfold integer? at found
    split at found
    · rename_i k constant
      cases found
      obtain ⟨short, same⟩ := eq_numeral_of_smallInt? wellFormed constant
      exact ⟨Nat.le_trans short pos, same⟩
    · rename_i noConstant
      split at found
      · rename_i shape
        obtain ⟨push, canonical⟩ := shape
        cases read : Number.decode limit t.data with
        | error cause =>
            rw [read] at found
            cases found
        | ok m =>
            rw [read] at found
            cases found
            obtain ⟨short, encoded⟩ := (Number.decode_eq_ok_iff small).mp read
            refine ⟨encoded ▸ short, ?_⟩
            exact eq_numeral_of_push wellFormed noConstant push canonical (by omega) encoded
      · cases found
  · rintro ⟨short, rfl⟩
    by_cases negative : n = -1
    · subst negative
      have read := Number.decode_encode short
      rw [encode_negativeOne] at read
      rw [numeral, if_pos rfl]
      show (Number.decode limit [0x81]).toOption = some (-1)
      rw [read]
      rfl
    · rw [numeral, if_neg negative, integer?_ofInt short, if_neg negative]

end Token

end LockingScript
