import LockingScript.Error
import LockingScript.Token.Rendering

/-!
# Scripts

A script of version 0 is a byte string. Scripts grow by appending up to a limit; a script given as
bytes may be longer than that.
-/

namespace LockingScript

structure Script where
  bytes : Bytes
deriving DecidableEq, Repr

namespace Script

def empty : Script := ⟨[]⟩

def size (s : Script) : Nat := s.bytes.length

def isEmpty (s : Script) : Bool := s.bytes.isEmpty

def ofHex (text : String) : Except Error Script :=
  match Hex.decode text.toList with
  | .ok bytes => .ok ⟨bytes⟩
  | .error cause => .error (.invalidHex cause)

def toHex (s : Script) : String := Hex.encode s.bytes

def reading (s : Script) : Reading := .ofBytes s.bytes

/-- The script on one line, with full names of opcodes and bare data. -/
def oneLine (s : Script) : String := s.reading.oneLine

/-- The script in words that can be read back. -/
def shortForm (s : Script) : String := s.reading.shortForm .full

def description (s : Script) : String := "Script(" ++ s.toHex ++ ")"

end Script

end LockingScript
