/-!
# Limits

Sizes are in bytes.
-/

namespace LockingScript

def maxScriptSize : Nat := 16384

/-- The most data that one push may hold. -/
def maxElementSize : Nat := 2048

/-- The most data that a null data output may carry. -/
def maxNullDataSize : Nat := 256

def maxMultiSigKeys : Nat := 20

/-- The longest number that arithmetic takes as an operand. -/
def maxOperandLength : Nat := 4

/-- The longest number that a lock time may be. -/
def maxLockTimeLength : Nat := 5

end LockingScript
