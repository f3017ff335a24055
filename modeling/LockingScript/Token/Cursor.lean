import LockingScript.Token.Reader

/-!
# Token by token

A cursor stands between two tokens of a script. It remembers the token before it and, once it
meets a malformed push, stays where it is.
-/

namespace LockingScript

structure Cursor where
  /-- The bytes from the cursor on. -/
  rest : Bytes
  /-- The number of bytes before the cursor. -/
  index : Nat
  token : Option Token
  fault : Option MalformedPush
deriving DecidableEq, Repr

namespace Cursor

/-- At the start of the script, or at its end when the version is not understood. -/
def start (version : UInt16) (script : Bytes) : Cursor :=
  if version = Reading.supportedVersion then ⟨script, 0, none, none⟩
  else ⟨[], script.length, none, none⟩

def isDone (c : Cursor) : Bool := c.fault.isSome || c.rest.isEmpty

/-- Moves the cursor past the next token. It stays in place, and says so, if there is none. -/
def next (c : Cursor) : Bool × Cursor :=
  match c.fault, c.rest with
  | some _, _ => (false, c)
  | none, [] => (false, c)
  | none, b :: after =>
      match Token.read ⟨b⟩ after with
      | .error fault => (false, { c with fault := some fault })
      | .ok (t, rest) => (true, ⟨rest, c.index + t.size, some t, none⟩)

theorem length_rest_next_lt {c d : Cursor} (h : c.next = (true, d)) :
    d.rest.length < c.rest.length := by
  unfold next at h
  split at h
  · simp at h
  · simp at h
  · rename_i rest
    split at h
    · simp at h
    · rename_i read
      have := Token.length_le_of_read read
      simp only [Prod.mk.injEq, true_and] at h
      subst h
      simp only [rest, List.length_cons]
      omega

/-- Moves the cursor as far as it goes. -/
def last (c : Cursor) : Cursor :=
  match _moved : c.next with
  | (true, d) => d.last
  | (false, d) => d
termination_by c.rest.length
decreasing_by exact length_rest_next_lt _moved

/-- The first `n` cursors that moving on gives, each with whether it moved. -/
def steps : Nat → Cursor → List (Bool × Cursor)
  | 0, _ => []
  | n + 1, c => c.next :: steps n c.next.2

end Cursor

/-- Checks that all of a script can be read. -/
def checkParses (version : UInt16) (script : Bytes) : Except MalformedPush Unit :=
  match (Cursor.start version script).last.fault with
  | some fault => .error fault
  | none => .ok ()

end LockingScript
