import LockingScript.Bytes.Basic

/-!
# Opcodes

Every byte value is an opcode. The values up to `OP_PUSHDATA4` push data that follows them in the
script: `0x00` to `0x4b` push as many bytes as their value says, and the last three read the
number of bytes from a little-endian prefix. All other opcodes stand alone.
-/

namespace LockingScript

structure Opcode where
  byte : UInt8
deriving DecidableEq, Repr, Inhabited

/-- How many bytes of data belong to an opcode: a fixed number, or the number written in a prefix
of the given width. -/
inductive LengthRule where
  | fixed (size : Nat)
  | prefixed (width : Nat)
deriving DecidableEq, Repr

namespace Opcode

def zero : Opcode := ⟨0x00⟩
def pushData1 : Opcode := ⟨0x4c⟩
def pushData2 : Opcode := ⟨0x4d⟩
def pushData4 : Opcode := ⟨0x4e⟩
def negativeOne : Opcode := ⟨0x4f⟩
def opIf : Opcode := ⟨0x63⟩
def opElse : Opcode := ⟨0x67⟩
def opEndIf : Opcode := ⟨0x68⟩
def opReturn : Opcode := ⟨0x6a⟩
def drop : Opcode := ⟨0x75⟩
def dup : Opcode := ⟨0x76⟩
def size : Opcode := ⟨0x82⟩
def equal : Opcode := ⟨0x87⟩
def equalVerify : Opcode := ⟨0x88⟩
def hash160 : Opcode := ⟨0xa9⟩
def checkSig : Opcode := ⟨0xac⟩
def checkMultiSig : Opcode := ⟨0xae⟩
def checkLockTimeVerify : Opcode := ⟨0xb1⟩
def sstx : Opcode := ⟨0xba⟩
def ssgen : Opcode := ⟨0xbb⟩
def ssrtx : Opcode := ⟨0xbc⟩
def sstxChange : Opcode := ⟨0xbd⟩
def checkSigAlt : Opcode := ⟨0xbe⟩
def sha256 : Opcode := ⟨0xc0⟩
def tadd : Opcode := ⟨0xc1⟩
def tgen : Opcode := ⟨0xc3⟩

/-- The opcode that pushes the next `n` bytes, for `n` from 1 to 75. -/
def data (n : Nat) : Opcode := ⟨UInt8.ofNat n⟩

/-- The opcode that pushes the number `n`, for `n` up to 16. -/
def ofSmallInt (n : Nat) : Opcode := if n = 0 then zero else ⟨UInt8.ofNat (0x50 + n)⟩

/-- The number from 0 to 16 that an opcode pushes by itself. -/
def smallInt? (op : Opcode) : Option Nat :=
  if op = zero then some 0
  else if 0x51 ≤ op.byte ∧ op.byte ≤ 0x60 then some (op.byte.toNat - 0x50)
  else none

/-- The number from -1 to 16 that an opcode pushes by itself. -/
def constant? (op : Opcode) : Option Int :=
  if op = negativeOne then some (-1) else op.smallInt?.map Int.ofNat

/-- Whether the opcode can be followed by data, or pushes the empty string. -/
def IsPush (op : Opcode) : Prop := op.byte ≤ 0x4e

instance (op : Opcode) : Decidable op.IsPush := inferInstanceAs (Decidable (op.byte ≤ 0x4e))

def lengthRule (op : Opcode) : LengthRule :=
  if op.byte ≤ 0x4b then .fixed op.byte.toNat
  else if op = pushData1 then .prefixed 1
  else if op = pushData2 then .prefixed 2
  else if op = pushData4 then .prefixed 4
  else .fixed 0

/-- The number of bytes that the length prefix takes. -/
def prefixWidth (op : Opcode) : Nat :=
  match op.lengthRule with
  | .fixed _ => 0
  | .prefixed width => width

/-- A property of every opcode is one of the 256 byte values. -/
theorem forall_of_bytes {P : Opcode → Prop} (h : ∀ n < 256, P ⟨UInt8.ofNat n⟩) (op : Opcode) :
    P op := by
  have := h op.byte.toNat op.byte.toNat_lt
  rwa [UInt8.ofNat_toNat] at this

theorem smallInt?_ofSmallInt {n : Nat} (h : n ≤ 16) : (ofSmallInt n).smallInt? = some n := by
  have all : ∀ n < 17, (ofSmallInt n).smallInt? = some n := by decide
  exact all n (by omega)

theorem ofSmallInt_of_smallInt? {op : Opcode} {n : Nat} :
    op.smallInt? = some n → ofSmallInt n = op ∧ n ≤ 16 := by
  have all : ∀ k < 256, ∀ n ∈ (Opcode.mk (UInt8.ofNat k)).smallInt?,
      ofSmallInt n = ⟨UInt8.ofNat k⟩ ∧ n ≤ 16 := by
    simp only [Option.mem_def]
    decide +kernel
  intro h
  exact forall_of_bytes (P := fun op => ∀ n ∈ op.smallInt?, ofSmallInt n = op ∧ n ≤ 16) all op n h

theorem lengthRule_ofSmallInt {n : Nat} (small : n ≤ 16) :
    (ofSmallInt n).lengthRule = .fixed 0 := by
  have all : ∀ n < 17, (ofSmallInt n).lengthRule = .fixed 0 := by decide
  exact all n (by omega)

theorem lengthRule_of_not_isPush {op : Opcode} (noPush : ¬ op.IsPush) :
    op.lengthRule = .fixed 0 := by
  have above : ¬ op.byte ≤ 0x4b := fun le => noPush (UInt8.le_trans le (by decide))
  have other {push : Opcode} (isPush : push.IsPush) : op ≠ push := by
    rintro rfl
    exact noPush isPush
  rw [lengthRule, if_neg above, if_neg (other (by decide)), if_neg (other (by decide)),
    if_neg (other (by decide))]

theorem lengthRule_of_constant? {op : Opcode} {n : Int} (constant : op.constant? = some n) :
    op.lengthRule = .fixed 0 := by
  unfold constant? at constant
  split at constant
  · rename_i minus
    rw [minus]
    rfl
  · obtain ⟨k, small, _⟩ := Option.map_eq_some_iff.mp constant
    obtain ⟨rfl, range⟩ := ofSmallInt_of_smallInt? small
    exact lengthRule_ofSmallInt range

end Opcode

end LockingScript
