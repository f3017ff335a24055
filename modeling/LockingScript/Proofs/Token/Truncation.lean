import LockingScript.Proofs.Token.Serialization

/-!
# Scripts that break off

No token begins with the bytes of another one, so a script that breaks off inside a token cannot be
read to its end. Scripts can be cut between two tokens, and nowhere else, without notice.
-/

namespace LockingScript

namespace Token

variable {t u : Token}

/-- Tokens are a prefix code. -/
theorem eq_of_bytes_prefix (first : u.WellFormed) (second : t.WellFormed)
    (front : u.bytes <+: t.bytes) : u = t := by
  obtain ⟨more, written⟩ := front
  have one : Reading.ofBytes t.bytes = ⟨[t], [], none⟩ :=
    Reading.ofBytes_of_tokenize (tokenize_bytes second)
  rw [← written, Reading.ofBytes_bytes_append first, Reading.cons] at one
  exact (List.cons.inj (congrArg Reading.tokens one)).1

/-- The front of a token's bytes is a push that is cut short. -/
theorem exists_read_take_bytes (wellFormed : t.WellFormed) {n : Nat} (pos : 0 < n)
    (short : n < t.size) :
    ∃ b after fault, t.bytes.take n = b :: after ∧ read ⟨b⟩ after = .error fault := by
  have length : (t.bytes.take n).length = n := by
    rw [List.length_take, length_bytes]
    exact Nat.min_eq_left (Nat.le_of_lt short)
  rcases Reading.ofBytes_cases (t.bytes.take n) with nothing | ⟨u, rest, first, written⟩ | cut
  · rw [nothing, List.length_nil] at length
    exact absurd length (Nat.ne_of_lt pos)
  · have front : u.bytes <+: t.bytes.take n := ⟨rest, written.symm⟩
    obtain rfl := eq_of_bytes_prefix first wellFormed (front.trans (List.take_prefix n _))
    have fits := front.length_le
    rw [length, length_bytes] at fits
    exact absurd short (Nat.not_lt_of_le fits)
  · exact cut

end Token

section Boundary

variable {tokens : List Token} {t : Token} {j k : Nat}

/-- The number of bytes that the first tokens take. -/
def boundary (tokens : List Token) (j : Nat) : Nat := ((tokens.take j).map Token.size).sum

@[simp] theorem boundary_zero (tokens : List Token) : boundary tokens 0 = 0 := rfl

@[simp] theorem boundary_cons_succ (t : Token) (rest : List Token) (j : Nat) :
    boundary (t :: rest) (j + 1) = t.size + boundary rest j := by
  simp [boundary]

theorem boundary_succ (found : tokens[j]? = some t) :
    boundary tokens (j + 1) = boundary tokens j + t.size := by
  simp [boundary, List.take_add_one, found]

theorem boundary_mono (tokens : List Token) {i : Nat} (le : i ≤ j) :
    boundary tokens i ≤ boundary tokens j := by
  obtain ⟨d, rfl⟩ := Nat.exists_eq_add_of_le le
  rw [boundary, boundary, List.take_add, List.map_append, List.sum_append]
  exact Nat.le_add_right _ _

/-- An index in a script stands between two of its tokens or inside one of them. -/
theorem boundary_or_inside (within : k ≤ (tokens.map Token.size).sum) :
    (∃ j, k = boundary tokens j) ∨
      ∃ j t n, tokens[j]? = some t ∧ 0 < n ∧ n < t.size ∧ k = boundary tokens j + n := by
  induction tokens generalizing k with
  | nil => exact .inl ⟨0, Nat.le_zero.mp within⟩
  | cons t rest ih =>
      rcases Nat.lt_or_ge k t.size with inside | behind
      · rcases Nat.eq_zero_or_pos k with rfl | pos
        · exact .inl ⟨0, rfl⟩
        · exact .inr ⟨0, t, k, rfl, pos, inside, by rw [boundary_zero, Nat.zero_add]⟩
      · obtain ⟨d, rfl⟩ := Nat.exists_eq_add_of_le behind
        rw [List.map_cons, List.sum_cons] at within
        rcases ih (Nat.le_of_add_le_add_left within) with
          ⟨j, rfl⟩ | ⟨j, u, n, found, pos, short, rfl⟩
        · exact .inl ⟨j + 1, (boundary_cons_succ t rest j).symm⟩
        · refine .inr ⟨j + 1, u, n, found, pos, short, ?_⟩
          rw [boundary_cons_succ, Nat.add_assoc]

theorem take_flatMap_bytes (tokens : List Token) (j n : Nat) :
    (tokens.flatMap Token.bytes).take (boundary tokens j + n) =
      (tokens.take j).flatMap Token.bytes ++ ((tokens.drop j).flatMap Token.bytes).take n := by
  have length : ((tokens.take j).flatMap Token.bytes).length = boundary tokens j :=
    Token.length_flatMap_bytes _
  have split : tokens.flatMap Token.bytes =
      (tokens.take j).flatMap Token.bytes ++ (tokens.drop j).flatMap Token.bytes := by
    rw [← List.flatMap_append, List.take_append_drop]
  rw [split, ← length]
  exact List.take_length_add_append n

end Boundary

/-- Reading stops behind these tokens. From the start of the script on a cursor passes them and
nothing else, and right behind them it meets the fault. -/
structure StopsBehind (script : Bytes) (tokens : List Token) (fault : MalformedPush) : Prop where
  malformed : tokenize 0 script = .error fault
  passed : (Cursor.start 0 script).passed = tokens.map fun t => (some t, t.size)
  index : (Cursor.start 0 script).last.index = (tokens.map Token.size).sum

theorem stopsBehind_of_cut {tokens : List Token} (wellFormed : ∀ t ∈ tokens, t.WellFormed)
    {b : UInt8} {after : Bytes} {fault : MalformedPush}
    (cut : Token.read ⟨b⟩ after = .error fault) :
    StopsBehind (tokens.flatMap Token.bytes ++ b :: after) tokens fault := by
  have reading : Reading.ofBytes (tokens.flatMap Token.bytes ++ b :: after) =
      ⟨tokens, b :: after, some fault⟩ := by
    rw [Reading.ofBytes_flatMap_bytes_append wellFormed, Reading.ofBytes_cons_of_error cut,
      List.append_nil]
  constructor
  · exact tokenize_eq_error_iff.mpr (congrArg Reading.fault reading)
  · apply (Cursor.passed_start_eq _).trans
    rw [reading]
  · apply (congrArg Cursor.index (Cursor.last_start _)).trans
    rw [reading]
    rfl

section Truncation

variable {script : Bytes} {tokens : List Token}

theorem tokenize_take_boundary (tokenized : tokenize 0 script = .ok tokens) (j : Nat) :
    tokenize 0 (script.take (boundary tokens j)) = .ok (tokens.take j) := by
  obtain ⟨wellFormed, rfl⟩ := tokenize_eq_ok_iff.mp tokenized
  have front := take_flatMap_bytes tokens j 0
  rw [Nat.add_zero, List.take_zero, List.append_nil] at front
  rw [front]
  exact tokenize_eq_ok_iff.mpr ⟨fun t membership => wellFormed t (List.mem_of_mem_take membership),
    rfl⟩

/-- A script that breaks off inside a token stops behind the token before it. -/
theorem stopsBehind_take_inside (tokenized : tokenize 0 script = .ok tokens) {j n : Nat} {t : Token}
    (found : tokens[j]? = some t) (pos : 0 < n) (short : n < t.size) :
    ∃ fault, StopsBehind (script.take (boundary tokens j + n)) (tokens.take j) fault := by
  obtain ⟨wellFormed, rfl⟩ := tokenize_eq_ok_iff.mp tokenized
  have membership : t ∈ tokens := List.mem_of_getElem? found
  obtain ⟨b, after, fault, bytes, cut⟩ :=
    Token.exists_read_take_bytes (wellFormed t membership) pos short
  have begun : ((tokens.drop j).flatMap Token.bytes).take n = b :: after := by
    rw [List.drop_eq_getElem?_toList_append, found, Option.toList_some, List.singleton_append,
      List.flatMap_cons, List.take_append_of_le_length, bytes]
    rw [Token.length_bytes]
    exact Nat.le_of_lt short
  rw [take_flatMap_bytes, begun]
  exact ⟨fault, stopsBehind_of_cut
    (fun u membership => wellFormed u (List.mem_of_mem_take membership)) cut⟩

/-- The front of a script that can be read can be read itself exactly when it ends behind a token,
and gives the tokens up to there. Where it ends inside a token, reading stops behind the tokens
before, at the last index between two tokens. -/
theorem tokenize_take (tokenized : tokenize 0 script = .ok tokens) {k : Nat}
    (within : k ≤ script.length) :
    ((∃ front, tokenize 0 (script.take k) = .ok front) ↔ ∃ j, k = boundary tokens j) ∧
      (∀ j, k = boundary tokens j → tokenize 0 (script.take k) = .ok (tokens.take j)) ∧
      ((∀ j, k ≠ boundary tokens j) →
        ∃ j fault, StopsBehind (script.take k) (tokens.take j) fault ∧ boundary tokens j < k ∧
          ∀ i, boundary tokens i < k → boundary tokens i ≤ boundary tokens j) := by
  have whole : ∀ j, k = boundary tokens j → tokenize 0 (script.take k) = .ok (tokens.take j) := by
    rintro j rfl
    exact tokenize_take_boundary tokenized j
  have bound : k ≤ (tokens.map Token.size).sum := by
    obtain ⟨-, rfl⟩ := tokenize_eq_ok_iff.mp tokenized
    rwa [Token.length_flatMap_bytes] at within
  refine ⟨⟨?_, fun ⟨j, eq⟩ => ⟨_, whole j eq⟩⟩, whole, ?_⟩
  · rintro ⟨front, read⟩
    rcases boundary_or_inside bound with between | ⟨j, t, n, found, pos, short, rfl⟩
    · exact between
    · obtain ⟨fault, stops⟩ := stopsBehind_take_inside tokenized found pos short
      rw [stops.malformed] at read
      cases read
  · intro elsewhere
    rcases boundary_or_inside bound with ⟨j, eq⟩ | ⟨j, t, n, found, pos, short, rfl⟩
    · exact absurd eq (elsewhere j)
    · obtain ⟨fault, stops⟩ := stopsBehind_take_inside tokenized found pos short
      refine ⟨j, fault, stops, Nat.lt_add_of_pos_right pos, ?_⟩
      intro i before
      -- The next boundary lies behind the cut.
      rcases Nat.lt_or_ge j i with later | earlier
      · have next := boundary_mono tokens later
        rw [Nat.succ_eq_add_one, boundary_succ found] at next
        omega
      · exact boundary_mono tokens earlier

end Truncation

/-- An opcode, a push with a length prefix, and an opcode. -/
def pushBetweenOpcodes : List Token := [⟨.dup, []⟩, ⟨.pushData1, [0x5d, 0x5e]⟩, ⟨.checkSig, []⟩]

/-- Cut inside the push, and right behind it. -/
theorem tokenize_take_pushBetweenOpcodes :
    tokenize 0 [0x76, 0x4c, 0x02, 0x5d, 0x5e, 0xac] = .ok pushBetweenOpcodes ∧
      (∀ j, 3 ≠ boundary pushBetweenOpcodes j) ∧
      (∃ j fault, StopsBehind [0x76, 0x4c, 0x02] (pushBetweenOpcodes.take j) fault ∧
        boundary pushBetweenOpcodes j = 1) ∧
      5 = boundary pushBetweenOpcodes 2 ∧
      tokenize 0 [0x76, 0x4c, 0x02, 0x5d, 0x5e] =
        .ok [⟨.dup, []⟩, ⟨.pushData1, [0x5d, 0x5e]⟩] := by
  have tokenized : tokenize 0 [0x76, 0x4c, 0x02, 0x5d, 0x5e, 0xac] = .ok pushBetweenOpcodes := by
    decide +kernel
  have around : ∀ j, boundary pushBetweenOpcodes j ≤ 1 ∨ 5 ≤ boundary pushBetweenOpcodes j := by
    intro j
    rcases Nat.lt_or_ge j 2 with before | behind
    · exact .inl (boundary_mono pushBetweenOpcodes (Nat.le_of_lt_succ before))
    · exact .inr (boundary_mono pushBetweenOpcodes behind)
  have inside : ∀ j, 3 ≠ boundary pushBetweenOpcodes j := by
    intro j
    have outside := around j
    omega
  obtain ⟨-, -, stops⟩ := tokenize_take tokenized (k := 3) (by decide)
  obtain ⟨-, whole, -⟩ := tokenize_take tokenized (k := 5) (by decide)
  obtain ⟨j, fault, stop, before, last⟩ := stops inside
  refine ⟨tokenized, inside, ⟨j, fault, stop, ?_⟩, rfl, whole 2 rfl⟩
  have first : 1 ≤ boundary pushBetweenOpcodes j := last 1 (by decide)
  have outside := around j
  omega

end LockingScript
