import LockingScript.Opcode.Name
import LockingScript.Token.Basic

/-!
# Reading tokens

A script is read from left to right until it ends or a push asks for more bytes than are left.
What was read up to such a push is kept, and so are the bytes from the push on. Only scripts of
version 0 are understood; in any other version a script holds no tokens and no fault.
-/

namespace LockingScript

/-- The part of a push that is cut short. -/
inductive PushPart where
  | direct
  | lengthPrefix
  | payload
deriving DecidableEq, Repr

/-- A push that needs more bytes than the script has left. The bytes left are counted from where
the missing part begins. -/
structure MalformedPush where
  opcode : Opcode
  part : PushPart
  needed : Nat
  remaining : Nat
deriving DecidableEq, Repr

def MalformedPush.message (fault : MalformedPush) : String :=
  let verb := match fault.part with
    | .direct => "requires"
    | .lengthPrefix => "requires"
    | .payload => "pushes"
  "opcode " ++ fault.opcode.name ++ " " ++ verb ++ " " ++ toString fault.needed ++
    " bytes, but script only has " ++ toString fault.remaining ++ " remaining"

/-- Reads the data of an opcode from the bytes after it. -/
def Token.read (op : Opcode) (after : Bytes) : Except MalformedPush (Token × Bytes) :=
  match op.lengthRule with
  | .fixed size =>
      match after.cut? size with
      | some (data, rest) => .ok (⟨op, data⟩, rest)
      | none => .error ⟨op, .direct, size, after.length⟩
  | .prefixed width =>
      match after.cut? width with
      | none => .error ⟨op, .lengthPrefix, width, after.length⟩
      | some (length, payload) =>
          match payload.cut? (LittleEndian.decode length) with
          | some (data, rest) => .ok (⟨op, data⟩, rest)
          | none => .error ⟨op, .payload, LittleEndian.decode length, payload.length⟩

theorem Token.length_le_of_read {op : Opcode} {after rest : Bytes} {t : Token}
    (h : Token.read op after = .ok (t, rest)) : rest.length ≤ after.length := by
  unfold Token.read at h
  split at h
  · split at h
    · rename_i cut
      obtain ⟨rfl, _⟩ := Bytes.cut?_eq_some_iff.mp cut
      cases h
      simp
    · cases h
  · split at h
    · cases h
    · rename_i outer
      obtain ⟨rfl, _⟩ := Bytes.cut?_eq_some_iff.mp outer
      split at h
      · rename_i inner
        obtain ⟨rfl, _⟩ := Bytes.cut?_eq_some_iff.mp inner
        cases h
        simp only [List.length_append]
        omega
      · cases h

/-- What reading a script gives: its tokens, the bytes that were not read, and the malformed push
at which reading stopped. -/
structure Reading where
  tokens : List Token
  rest : Bytes
  fault : Option MalformedPush
deriving DecidableEq, Repr

namespace Reading

def empty : Reading := ⟨[], [], none⟩

/-- Puts a token in front of what was read after it. -/
def cons (t : Token) (r : Reading) : Reading := { r with tokens := t :: r.tokens }

def ofBytes : Bytes → Reading
  | [] => empty
  | b :: after =>
      match _read : Token.read ⟨b⟩ after with
      | .error fault => ⟨[], b :: after, some fault⟩
      | .ok (t, rest) => (ofBytes rest).cons t
termination_by b => b.length
decreasing_by
  have := Token.length_le_of_read _read
  simp only [List.length_cons]
  omega

/-- The script version whose tokens are understood. -/
def supportedVersion : UInt16 := 0

def ofScript (version : UInt16) (script : Bytes) : Reading :=
  if version = supportedVersion then ofBytes script else empty

end Reading

/-- The tokens of a script, if all of it can be read. -/
def tokenize (version : UInt16) (script : Bytes) : Except MalformedPush (List Token) :=
  let reading := Reading.ofScript version script
  match reading.fault with
  | some fault => .error fault
  | none => .ok reading.tokens

end LockingScript
