/-!
# Byte strings

Scripts, keys, hashes and pushed data are lists of bytes. A byte string whose length belongs to
its meaning, such as a hash, is a `BytesN`.
-/

namespace LockingScript

abbrev Bytes := List UInt8

/-- Byte strings of exactly `n` bytes. -/
abbrev BytesN (n : Nat) := { b : Bytes // b.length = n }

namespace Bytes

/-- A property of every byte is one of the 256 values. -/
theorem forall_byte {P : UInt8 → Prop} (h : ∀ n < 256, P (UInt8.ofNat n)) (b : UInt8) : P b := by
  have := h b.toNat b.toNat_lt
  rwa [UInt8.ofNat_toNat] at this

/-- The string with its length in the type, if it has that length. -/
def exactly? (n : Nat) (b : Bytes) : Option (BytesN n) :=
  if h : b.length = n then some ⟨b, h⟩ else none

theorem exactly?_eq_some_iff {n : Nat} {b : Bytes} {c : BytesN n} :
    b.exactly? n = some c ↔ b = c.val := by
  unfold exactly?
  split
  · simp [Subtype.ext_iff]
  · rename_i h
    simp only [reduceCtorEq, false_iff]
    intro eq
    exact h (eq ▸ c.property)

@[simp] theorem exactly?_val {n : Nat} (c : BytesN n) : Bytes.exactly? n c.val = some c :=
  exactly?_eq_some_iff.mpr rfl

/-- The first `n` bytes and what follows them, if there are that many. -/
def cut? (n : Nat) (b : Bytes) : Option (Bytes × Bytes) :=
  if (b.take n).length = n then some (b.take n, b.drop n) else none

theorem cut?_eq_some_iff {n : Nat} {b front rest : Bytes} :
    b.cut? n = some (front, rest) ↔ b = front ++ rest ∧ front.length = n := by
  unfold cut?
  constructor
  · intro h
    split at h
    · rename_i full
      simp only [Option.some.injEq, Prod.mk.injEq] at h
      exact ⟨by rw [← h.1, ← h.2, List.take_append_drop], h.1 ▸ full⟩
    · simp at h
  · rintro ⟨rfl, rfl⟩
    simp

theorem cut?_eq_none_iff {n : Nat} {b : Bytes} : b.cut? n = none ↔ b.length < n := by
  simp only [cut?, List.length_take, ite_eq_right_iff, reduceCtorEq, imp_false]
  omega

end Bytes

end LockingScript
