import LockingScript.Proofs.Token.Reading
import LockingScript.Token.Cursor

/-!
# Where a cursor comes to rest

A cursor that moves as far as it can passes the tokens that reading the script gives, and stops
where reading stops, with the same fault.
-/

namespace LockingScript

namespace Reading

/-- The number of bytes that the tokens take. -/
def consumed (r : Reading) : Nat := (r.tokens.map Token.size).sum

@[simp] theorem consumed_cons (t : Token) (r : Reading) :
    (r.cons t).consumed = t.size + r.consumed := by
  simp [consumed, cons]

theorem length_flatMap_bytes (r : Reading) :
    (r.tokens.flatMap Token.bytes).length = r.consumed :=
  Token.length_flatMap_bytes r.tokens

end Reading

namespace Cursor

theorem next_token {t : Token} (wellFormed : t.WellFormed) (rest : Bytes) (index : Nat)
    (before : Option Token) :
    next ⟨t.bytes ++ rest, index, before, none⟩ =
      (true, ⟨rest, index + t.size, some t, none⟩) := by
  simp only [next, Token.bytes, List.cons_append]
  rw [Token.read_bytes wellFormed rest]

theorem next_malformed {b : UInt8} {after : Bytes} {fault : MalformedPush}
    (cut : Token.read ⟨b⟩ after = .error fault) (index : Nat) (before : Option Token) :
    next ⟨b :: after, index, before, none⟩ =
      (false, ⟨b :: after, index, before, some fault⟩) := by
  simp only [next]
  rw [cut]

theorem last_of_moved {c d : Cursor} (moved : c.next = (true, d)) : c.last = d.last := by
  rw [last]
  split
  · rename_i other found
    rw [moved] at found
    cases found
    rfl
  · rename_i other found
    rw [moved] at found
    cases found

theorem last_of_stopped {c d : Cursor} (stopped : c.next = (false, d)) : c.last = d := by
  rw [last]
  split
  · rename_i other found
    rw [stopped] at found
    cases found
  · rename_i other found
    rw [stopped] at found
    cases found
    rfl

theorem last_eq (script : Bytes) (index : Nat) (before : Option Token) :
    last ⟨script, index, before, none⟩ =
      ⟨(Reading.ofBytes script).rest, index + (Reading.ofBytes script).consumed,
        (Reading.ofBytes script).tokens.getLast?.or before, (Reading.ofBytes script).fault⟩ := by
  induction script using Reading.induction_on_script generalizing index before with
  | nil => simpa [Reading.empty, Reading.consumed] using last_of_stopped (by rfl)
  | malformed b after fault cut =>
      rw [last_of_stopped (next_malformed cut index before), Reading.ofBytes_cons_of_error cut]
      rfl
  | token t rest wellFormed ih =>
      rw [last_of_moved (next_token wellFormed rest index before), ih,
        Reading.ofBytes_bytes_append wellFormed, Reading.consumed_cons]
      simp [Reading.cons, List.getLast?_cons, Nat.add_assoc, Option.or_some]

theorem last_start (script : Bytes) :
    (start Reading.supportedVersion script).last =
      ⟨(Reading.ofBytes script).rest, (Reading.ofBytes script).consumed,
        (Reading.ofBytes script).tokens.getLast?, (Reading.ofBytes script).fault⟩ := by
  simp [start, last_eq]

theorem fault_last_start (version : UInt16) (script : Bytes) :
    (start version script).last.fault = (Reading.ofScript version script).fault := by
  by_cases supported : version = Reading.supportedVersion
  · rw [supported, last_start, Reading.ofScript, if_pos rfl]
  · have stopped : next ⟨[], script.length, none, none⟩ =
        (false, ⟨[], script.length, none, none⟩) := rfl
    rw [start, if_neg supported, Reading.ofScript, if_neg supported, last_of_stopped stopped]
    rfl

end Cursor

/-- Moving a cursor through a script finds the fault at which reading stops. -/
theorem checkParses_eq (version : UInt16) (script : Bytes) :
    checkParses version script = (tokenize version script).map fun _ => () := by
  rw [checkParses, Cursor.fault_last_start, tokenize]
  cases (Reading.ofScript version script).fault <;> rfl

end LockingScript
