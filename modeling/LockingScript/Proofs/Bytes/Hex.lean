import LockingScript.Bytes.Hex
import LockingScript.Proofs.Text.Words

/-!
# Hexadecimal text is read back

Each byte is written as two digits whose codes have the halves of the byte as values, so reading
the digits in pairs gives the bytes again.
-/

namespace LockingScript.Hex

theorem ofNat_toNat_div (b : UInt8) : UInt8.ofNat (b.toNat / 16) = b / 16 := by
  have := b.toNat_lt
  exact UInt8.toNat_inj.mp (by simp; omega)

theorem ofNat_toNat_mod (b : UInt8) : UInt8.ofNat (b.toNat % 16) = b % 16 := by
  have := b.toNat_lt
  exact UInt8.toNat_inj.mp (by simp; omega)

/-- The codes of the two digits of a byte. -/
theorem codes_digits (b : UInt8) :
    ∃ high low, (digits b).flatMap String.utf8EncodeChar = [high, low] ∧
      value? high = some (b / 16) ∧ value? low = some (b % 16) := by
  have half : ∀ n < 16, ∃ code, String.utf8EncodeChar (digit (UInt8.ofNat n)) = [code] ∧
      value? code = some (UInt8.ofNat n) := by
    have every : ∀ n < 16,
        String.utf8EncodeChar (digit (UInt8.ofNat n)) =
          [(String.utf8EncodeChar (digit (UInt8.ofNat n))).headD 0] ∧
        value? ((String.utf8EncodeChar (digit (UInt8.ofNat n))).headD 0) =
          some (UInt8.ofNat n) := by decide
    exact fun n small => ⟨_, every n small⟩
  have bounded := b.toNat_lt
  obtain ⟨high, highCode, highValue⟩ := half (b.toNat / 16) (by omega)
  obtain ⟨low, lowCode, lowValue⟩ := half (b.toNat % 16) (by omega)
  rw [ofNat_toNat_div] at highCode highValue
  rw [ofNat_toNat_mod] at lowCode lowValue
  exact ⟨high, low, by simp [digits, highCode, lowCode], highValue, lowValue⟩

theorem halves (b : UInt8) : 16 * (b / 16) + b % 16 = b := by
  apply UInt8.toNat_inj.mp
  have := b.toNat_lt
  simp
  omega

theorem readPairs_codes (position : Nat) (b : Bytes) :
    readPairs position ((write b).flatMap String.utf8EncodeChar) = .ok b := by
  induction b generalizing position with
  | nil => rfl
  | cons x rest ih =>
      obtain ⟨high, low, codes, highValue, lowValue⟩ := codes_digits x
      have written : (write (x :: rest)).flatMap String.utf8EncodeChar =
          high :: low :: (write rest).flatMap String.utf8EncodeChar := by
        rw [write, List.flatMap_cons, List.flatMap_append, codes]
        rfl
      rw [written, readPairs, valueAt, highValue, valueAt, lowValue, ih]
      simp [bind, Except.bind, pure, Except.pure, halves]

theorem length_codes (b : Bytes) :
    ((write b).flatMap String.utf8EncodeChar).length = 2 * b.length := by
  induction b with
  | nil => rfl
  | cons x rest ih =>
      obtain ⟨high, low, codes, -, -⟩ := codes_digits x
      rw [write, List.flatMap_cons, List.flatMap_append, codes, List.length_append]
      rw [write] at ih
      simp only [ih, List.length_cons, List.length_nil]
      omega

@[simp] theorem decode_write (b : Bytes) : decode (write b) = .ok b := by
  have even : ¬ ((write b).flatMap String.utf8EncodeChar).length % 2 = 1 := by
    rw [length_codes]
    omega
  rw [decode, read, if_neg even, readPairs_codes]

/-- What holds of the sixteen digits holds of all characters that are written. -/
theorem forall_mem_write {P : Char → Prop} (every : ∀ n < 16, P (digit (UInt8.ofNat n)))
    {b : Bytes} {c : Char} (membership : c ∈ write b) : P c := by
  obtain ⟨x, -, inDigits⟩ := List.mem_flatMap.mp membership
  have bounded := x.toNat_lt
  have high := every (x.toNat / 16) (by omega)
  have low := every (x.toNat % 16) (by omega)
  rw [ofNat_toNat_div] at high
  rw [ofNat_toNat_mod] at low
  rcases List.mem_cons.mp inDigits with rfl | last
  · exact high
  · rw [List.mem_singleton.mp last]
    exact low

theorem isBare_write (b : Bytes) : Text.IsBare (write b) := fun _ membership =>
  forall_mem_write (P := fun c => Text.isBlank c = false ∧ c ≠ ']') (by decide) membership

end LockingScript.Hex
