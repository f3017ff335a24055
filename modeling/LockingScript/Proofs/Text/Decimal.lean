import LockingScript.Text.Decimal

/-!
# Written numbers

A number that is written in decimal digits is read back. The reader carries the value of the digits
before, so reading the digits of a longer number is reading its front digits and then the last one.
-/

namespace LockingScript.Text

theorem digitsFrom?_append (m : Nat) (front back : List Char) :
    digitsFrom? m (front ++ back) = (digitsFrom? m front).bind (digitsFrom? · back) := by
  induction front generalizing m with
  | nil => rfl
  | cons c rest ih =>
      rw [List.cons_append, digitsFrom?, digitsFrom?]
      cases digitValue? c with
      | none => rfl
      | some d => exact ih (10 * m + d)

theorem digitsFrom?_digitChar (m : Nat) {d : Nat} (digit : d < 10) :
    digitsFrom? m [Nat.digitChar d] = some (10 * m + d) := by
  have value : ∀ d < 10, digitValue? (Nat.digitChar d) = some d := by decide
  rw [digitsFrom?, value d digit]
  rfl

/-- The digits of a number give its value when nothing stands in front of them. -/
theorem digitsFrom?_toDigits (n : Nat) : digitsFrom? 0 (Nat.toDigits 10 n) = some n := by
  induction n using Nat.strongRecOn with
  | ind n ih =>
      rw [Nat.toDigits_eq_if (by decide)]
      split
      · rename_i digit
        rw [digitsFrom?_digitChar 0 digit, Nat.mul_zero, Nat.zero_add]
      · rename_i long
        have front := ih (n / 10) (by omega)
        rw [digitsFrom?_append, front, Option.bind_some,
          digitsFrom?_digitChar _ (Nat.mod_lt n (by decide)), Nat.div_add_mod]

theorem natural?_toString (n : Nat) : natural? (toString n).toList = some n := by
  rw [Nat.toString_eq_repr, Nat.toList_repr]
  have read := digitsFrom?_toDigits n
  cases digits : Nat.toDigits 10 n with
  | nil => exact absurd digits Nat.toDigits_ne_nil
  | cons c rest => rwa [digits] at read

/-- Digits are no sign. -/
theorem head_toString {n : Nat} {c : Char} {rest : List Char}
    (written : (toString n).toList = c :: rest) : c.isDigit = true := by
  rw [Nat.toString_eq_repr, Nat.toList_repr] at written
  exact Nat.isDigit_of_mem_toDigits (by decide) (by decide) (written ▸ List.mem_cons_self)

theorem integer?_toString (n : Nat) : integer? (toString n).toList = some (Int.ofNat n) := by
  have read := natural?_toString n
  unfold integer?
  split
  · rename_i rest written
    exact absurd (head_toString written) (by decide)
  · rename_i rest written
    exact absurd (head_toString written) (by decide)
  · rw [read]
    rfl

theorem uint16?_toString (n : UInt16) : uint16? (toString n).toList = some n := by
  have written : toString n = toString n.toNat := rfl
  have inRange : (0 : Int) ≤ Int.ofNat n.toNat ∧ Int.ofNat n.toNat ≤ 0xffff := by
    have bound := n.toNat_lt
    simp only [Int.ofNat_eq_natCast]
    omega
  rw [uint16?, integerIn?, written, integer?_toString, Option.filter_some,
    if_pos (by simpa using inRange)]
  simp

end LockingScript.Text
