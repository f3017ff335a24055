import LockingScript.Proofs.Token.Cursor

/-!
# Scripts and lists of tokens

Scripts that can be read and lists of well-formed tokens are in bijection: reading and writing are
inverse to each other. A cursor that passes the tokens of a script moves by the opcode, the length
prefix and the data of each of them.
-/

namespace LockingScript

namespace Cursor

/-- What a cursor meets on its way: after each move, the token before it and the number of bytes
that it moved by. -/
def passed (c : Cursor) : List (Option Token × Nat) :=
  match _moved : c.next with
  | (true, d) => (d.token, c.rest.length - d.rest.length) :: d.passed
  | (false, _) => []
termination_by c.rest.length
decreasing_by exact length_rest_next_lt _moved

theorem passed_of_moved {c d : Cursor} (moved : c.next = (true, d)) :
    c.passed = (d.token, c.rest.length - d.rest.length) :: d.passed := by
  rw [passed]
  split
  · rename_i other found
    rw [moved] at found
    cases found
    rfl
  · rename_i other found
    rw [moved] at found
    cases found

theorem passed_of_stopped {c d : Cursor} (stopped : c.next = (false, d)) : c.passed = [] := by
  rw [passed]
  split
  · rename_i other found
    rw [stopped] at found
    cases found
  · rfl

theorem passed_of_token {t : Token} (wellFormed : t.WellFormed) (rest : Bytes) (index : Nat)
    (before : Option Token) :
    passed ⟨t.bytes ++ rest, index, before, none⟩ =
      (some t, t.size) :: passed ⟨rest, index + t.size, some t, none⟩ := by
  have length : (t.bytes ++ rest).length - rest.length = t.size := by
    rw [List.length_append, Token.length_bytes, Nat.add_sub_cancel]
  rw [passed_of_moved (next_token wellFormed rest index before), length]

/-- A cursor passes the tokens that reading gives, also when reading stops before the end. -/
theorem passed_eq (script : Bytes) (index : Nat) (before : Option Token) :
    passed ⟨script, index, before, none⟩ =
      (Reading.ofBytes script).tokens.map fun t => (some t, t.size) := by
  induction script using Reading.induction_on_script generalizing index before with
  | nil => simpa [Reading.empty] using passed_of_stopped (by rfl)
  | malformed b after fault cut =>
      rw [passed_of_stopped (next_malformed cut index before), Reading.ofBytes_cons_of_error cut]
      rfl
  | token t rest wellFormed ih =>
      rw [passed_of_token wellFormed, ih, Reading.ofBytes_bytes_append wellFormed]
      rfl

theorem passed_start_eq (script : Bytes) :
    (start Reading.supportedVersion script).passed =
      (Reading.ofBytes script).tokens.map fun t => (some t, t.size) := by
  rw [start, if_pos rfl, passed_eq]

theorem passed_start {script : Bytes} {tokens : List Token}
    (tokenized : tokenize Reading.supportedVersion script = .ok tokens) :
    (start Reading.supportedVersion script).passed = tokens.map fun t => (some t, t.size) := by
  rw [passed_start_eq, Reading.ofBytes_of_tokenize tokenized]

end Cursor

/-- A script that can be read is what its tokens, all of them well formed, are written as, and any
well-formed tokens are read back from what they are written as. -/
theorem tokenize_bijection :
    (∀ script tokens, tokenize 0 script = .ok tokens →
      (∀ t ∈ tokens, t.WellFormed) ∧ tokens.flatMap Token.bytes = script ∧
        (Cursor.start 0 script).passed =
          tokens.map fun t => (some t, 1 + t.opcode.prefixWidth + t.data.length)) ∧
    ∀ tokens : List Token, (∀ t ∈ tokens, t.WellFormed) →
      tokenize 0 (tokens.flatMap Token.bytes) = .ok tokens := by
  constructor
  · intro script tokens tokenized
    obtain ⟨wellFormed, written⟩ := tokenize_eq_ok_iff.mp tokenized
    exact ⟨wellFormed, written, Cursor.passed_start tokenized⟩
  · intro tokens wellFormed
    exact tokenize_eq_ok_iff.mpr ⟨wellFormed, rfl⟩

/-- An empty push with a length prefix, a direct push and an opcode that takes no data. -/
def sampleTokens : List Token := [⟨.pushData2, []⟩, ⟨.data 2, [0xab, 0xcd]⟩, ⟨.dup, []⟩]

theorem tokenize_bijection_sampleTokens :
    (∀ t ∈ sampleTokens, t.WellFormed) ∧
      tokenize 0 [0x4d, 0x00, 0x00, 0x02, 0xab, 0xcd, 0x76] = .ok sampleTokens ∧
      (Cursor.start 0 [0x4d, 0x00, 0x00, 0x02, 0xab, 0xcd, 0x76]).passed =
        [(some ⟨.pushData2, []⟩, 3), (some ⟨.data 2, [0xab, 0xcd]⟩, 3), (some ⟨.dup, []⟩, 1)] := by
  have wellFormed : ∀ t ∈ sampleTokens, t.WellFormed := by decide
  have written :
      sampleTokens.flatMap Token.bytes = [0x4d, 0x00, 0x00, 0x02, 0xab, 0xcd, 0x76] := by
    decide
  have tokenized := tokenize_bijection.2 sampleTokens wellFormed
  rw [written] at tokenized
  obtain ⟨-, -, passed⟩ := tokenize_bijection.1 _ _ tokenized
  exact ⟨wellFormed, tokenized, passed⟩

end LockingScript
