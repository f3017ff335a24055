import LockingScript.Bytes.LittleEndian
import LockingScript.Opcode.Basic

/-!
# Tokens

A token is an opcode with the data that belongs to it. In a script it stands as the opcode byte,
the length of the data if the opcode takes a length prefix, and the data.
-/

namespace LockingScript

structure Token where
  opcode : Opcode
  data : Bytes
deriving DecidableEq, Repr

namespace Token

def bytes (t : Token) : Bytes :=
  t.opcode.byte :: LittleEndian.encode t.opcode.prefixWidth t.data.length ++ t.data

/-- The number of bytes that the token takes in a script. -/
def size (t : Token) : Nat := 1 + t.opcode.prefixWidth + t.data.length

@[simp] theorem length_bytes (t : Token) : t.bytes.length = t.size := by
  simp [bytes, size]
  omega

end Token

end LockingScript
