import LockingScript.Proofs.Token.Cursor
import Mathlib.Algebra.BigOperators.Group.List.Basic

/-!
# How a cursor goes on

A call moves a cursor past the next token of the script, or leaves it where it stands for good. So
a cursor always stands right behind the tokens that it has passed, and it passes no more tokens than
the script has bytes.
-/

namespace LockingScript.Cursor

/-- The cursor after the first `n` calls. -/
def after (n : Nat) (c : Cursor) : Cursor := ((steps n c).map Prod.snd).getLastD c

/-- The tokens that the first `n` calls moved past. -/
def returned (n : Nat) (c : Cursor) : List Token :=
  (steps n c).filterMap fun call => if call.1 then call.2.token else none

section Call

variable {c d : Cursor} {t : Token}

theorem isDone_eq_false_iff : c.isDone = false ↔ c.fault = none ∧ c.rest ≠ [] := by
  simp [isDone]

/-- A call finds the cursor done, or meets a push that is cut short, or moves past a token. -/
theorem next_cases (c : Cursor) :
    (c.isDone = true ∧ c.next = (false, c)) ∨
      (∃ fault, c.isDone = false ∧ c.next = (false, { c with fault := some fault })) ∨
      ∃ t rest, c.isDone = false ∧ c.rest = t.bytes ++ rest ∧
        c.next = (true, ⟨rest, c.index + t.size, some t, none⟩) := by
  obtain ⟨script, index, before, fault⟩ := c
  cases fault with
  | some fault => exact .inl ⟨rfl, rfl⟩
  | none =>
      rcases Reading.ofBytes_cases script with rfl | ⟨t, rest, wellFormed, rfl⟩ |
        ⟨b, rest, fault, rfl, cut⟩
      · exact .inl ⟨rfl, rfl⟩
      · exact .inr (.inr ⟨t, rest, rfl, rfl, next_token wellFormed rest index before⟩)
      · exact .inr (.inl ⟨fault, rfl, next_malformed cut index before⟩)

theorem next_of_isDone (done : c.isDone = true) : c.next = (false, c) := by
  rcases c.next_cases with ⟨_, stays⟩ | ⟨_, going, _⟩ | ⟨_, _, going, _⟩
  · exact stays
  · rw [done] at going
    cases going
  · rw [done] at going
    cases going

theorem exists_token_of_moved (moved : c.next = (true, d)) :
    ∃ t, c.rest = t.bytes ++ d.rest ∧ d.token = some t ∧ d.index = c.index + t.size ∧
      d.fault = none := by
  rcases c.next_cases with ⟨_, stays⟩ | ⟨_, _, stays⟩ | ⟨t, rest, _, written, goes⟩
  · rw [stays] at moved
    cases moved
  · rw [stays] at moved
    cases moved
  · rw [goes] at moved
    cases moved
    exact ⟨t, written, rfl, rfl, rfl⟩

/-- A call that does not move the cursor changes nothing but the fault. -/
theorem unmoved_of_stopped (stopped : c.next = (false, d)) :
    d.token = c.token ∧ d.rest = c.rest ∧ d.index = c.index ∧ d.isDone = true := by
  rcases c.next_cases with ⟨done, stays⟩ | ⟨fault, _, stays⟩ | ⟨_, _, _, _, goes⟩
  · rw [stays] at stopped
    cases stopped
    exact ⟨rfl, rfl, rfl, done⟩
  · rw [stays] at stopped
    cases stopped
    exact ⟨rfl, rfl, rfl, rfl⟩
  · rw [goes] at stopped
    cases stopped

theorem after_succ (n : Nat) (c : Cursor) : c.after (n + 1) = c.next.2.after n := by
  rw [after, steps, List.map_cons, List.getLastD_cons, after]

theorem after_of_isDone (done : c.isDone = true) (n : Nat) : c.after n = c := by
  induction n with
  | zero => rfl
  | succ n ih => rw [after_succ, next_of_isDone done, ih]

theorem returned_succ_of_moved (moved : c.next = (true, d)) (token : d.token = some t) (n : Nat) :
    c.returned (n + 1) = t :: d.returned n := by
  simp only [returned, steps, moved, List.filterMap_cons, if_true, token]

theorem returned_succ_of_stopped (stopped : c.next = (false, d)) (n : Nat) :
    c.returned (n + 1) = d.returned n := by
  simp only [returned, steps, stopped, List.filterMap_cons, Bool.false_eq_true, if_false]

end Call

section Run

/-- The bytes in front of the cursor are those of the tokens that it moves past and the bytes in
front of it then. -/
theorem rest_eq_returned_append (n : Nat) (c : Cursor) :
    c.rest = (c.returned n).flatMap Token.bytes ++ (c.after n).rest ∧
      (c.after n).index = c.index + ((c.returned n).map Token.size).sum := by
  induction n generalizing c with
  | zero => exact ⟨rfl, rfl⟩
  | succ n ih =>
      rcases call : c.next with ⟨_ | _, d⟩
      · obtain ⟨_, rest, index, _⟩ := unmoved_of_stopped call
        rw [after_succ, returned_succ_of_stopped call, call, ← rest, ← index]
        exact ih d
      · obtain ⟨t, written, token, index, _⟩ := exists_token_of_moved call
        obtain ⟨rest, index'⟩ := ih d
        rw [after_succ, returned_succ_of_moved call token, call, written]
        refine ⟨?_, ?_⟩
        · rw [List.flatMap_cons, List.append_assoc, ← rest]
        · rw [index', index, List.map_cons, List.sum_cons, Nat.add_assoc]

theorem countP_steps (n : Nat) (c : Cursor) :
    (c.steps n).countP Prod.fst = (c.returned n).length := by
  induction n generalizing c with
  | zero => rfl
  | succ n ih =>
      rcases call : c.next with ⟨_ | _, d⟩
      · rw [returned_succ_of_stopped call, steps, call, List.countP_cons, ih]
        rfl
      · obtain ⟨t, _, token, _⟩ := exists_token_of_moved call
        rw [returned_succ_of_moved call token, steps, call, List.countP_cons, ih]
        rfl

theorem length_returned_le (n : Nat) (c : Cursor) : (c.returned n).length ≤ c.rest.length := by
  have one : ∀ size ∈ (c.returned n).map Token.size, 1 ≤ size := by
    intro size membership
    obtain ⟨t, _, rfl⟩ := List.mem_map.mp membership
    exact t.size_pos
  calc (c.returned n).length
    _ = ((c.returned n).map Token.size).length := (List.length_map Token.size).symm
    _ ≤ ((c.returned n).map Token.size).sum := List.length_le_sum_of_one_le _ one
    _ = ((c.returned n).flatMap Token.bytes).length := (Token.length_flatMap_bytes _).symm
    _ ≤ c.rest.length := by
        rw [(c.rest_eq_returned_append n).1, List.length_append]
        exact Nat.le_add_right _ _

end Run

/-- The cursor stands in the script: in front of it are the bytes from its index on, and there are
some if it has met a fault. -/
structure StandsIn (c : Cursor) (script : Bytes) : Prop where
  index_le : c.index ≤ script.length
  rest : c.rest = script.drop c.index
  fault : c.fault ≠ none → c.rest ≠ []

namespace StandsIn

variable {c d : Cursor} {script : Bytes}

theorem start (version : UInt16) (script : Bytes) : (start version script).StandsIn script := by
  unfold Cursor.start
  split
  · exact ⟨Nat.zero_le _, rfl, fun fault => absurd rfl fault⟩
  · exact ⟨Nat.le_refl _, List.drop_length.symm, fun fault => absurd rfl fault⟩

theorem next (stands : c.StandsIn script) : c.next.2.StandsIn script := by
  rcases c.next_cases with ⟨_, stays⟩ | ⟨fault, going, stays⟩ | ⟨t, rest, _, written, goes⟩
  · rwa [stays]
  · rw [stays]
    exact ⟨stands.index_le, stands.rest, fun _ => (isDone_eq_false_iff.mp going).2⟩
  · rw [goes]
    have bytes : script.drop c.index = t.bytes ++ rest := stands.rest.symm.trans written
    have length := congrArg List.length bytes
    rw [List.length_drop, List.length_append, Token.length_bytes] at length
    have room := stands.index_le
    have pos := t.size_pos
    refine ⟨?_, ?_, fun fault => absurd rfl fault⟩
    · show c.index + t.size ≤ script.length
      omega
    · show rest = script.drop (c.index + t.size)
      rw [← List.drop_drop, bytes, List.drop_left' t.length_bytes]

theorem after (stands : c.StandsIn script) (n : Nat) : (c.after n).StandsIn script := by
  induction n generalizing c with
  | zero => exact stands
  | succ n ih =>
      rw [after_succ]
      exact ih stands.next

theorem length_rest (stands : c.StandsIn script) : c.rest.length = script.length - c.index := by
  rw [stands.rest, List.length_drop]

/-- A cursor that moves on leaves one more token behind it, whose data is right behind it. -/
theorem exists_token_of_moved (stands : c.StandsIn script) (moved : c.next = (true, d)) :
    ∃ t, d.token = some t ∧ d.index = c.index + t.size ∧ 1 ≤ t.size ∧
      script.take d.index = script.take c.index ++ t.bytes ∧ t.data <:+ script.take d.index := by
  obtain ⟨t, written, token, index, _⟩ := Cursor.exists_token_of_moved moved
  have bytes : script.take d.index = script.take c.index ++ t.bytes := by
    rw [index, List.take_add, ← stands.rest, written, List.take_left' t.length_bytes]
  refine ⟨t, token, index, t.size_pos, bytes, ?_⟩
  rw [bytes]
  exact (List.suffix_append _ _).trans (List.suffix_append _ _)

theorem index_lt_of_fault (stands : c.StandsIn script) (fault : c.fault ≠ none) :
    c.index < script.length := by
  have left := List.length_pos_of_ne_nil (stands.fault fault)
  rw [stands.length_rest] at left
  omega

end StandsIn

/-- How a cursor stands in a script and how it goes on from there. -/
structure Sound (c : Cursor) (script : Bytes) : Prop where
  index_le : c.index ≤ script.length
  moved : ∀ d, c.next = (true, d) →
    ∃ t, d.token = some t ∧ d.index = c.index + t.size ∧ 1 ≤ t.size ∧
      script.take d.index = script.take c.index ++ t.bytes ∧ t.data <:+ script.take d.index
  /-- Once it does not move, it never changes again, its fault included. -/
  stopped : ∀ d, c.next = (false, d) →
    d.token = c.token ∧ d.index = c.index ∧ d.isDone = true ∧
      ∀ n, (d.after n).next = (false, d)
  isDone : c.isDone = true ↔ c.fault ≠ none ∨ script.length ≤ c.index
  fault : c.fault ≠ none → c.index < script.length

theorem StandsIn.sound {c : Cursor} {script : Bytes} (stands : c.StandsIn script) :
    c.Sound script where
  index_le := stands.index_le
  moved _ moved := stands.exists_token_of_moved moved
  stopped d stopped := by
    obtain ⟨token, _, index, done⟩ := unmoved_of_stopped stopped
    refine ⟨token, index, done, fun n => ?_⟩
    rw [after_of_isDone done, next_of_isDone done]
  isDone := by
    rw [← Bool.not_eq_false, isDone_eq_false_iff, not_and_or, not_not,
      ← List.length_eq_zero_iff, stands.length_rest, Nat.sub_eq_zero_iff_le]
  fault := stands.index_lt_of_fault

/-- The bytes of a script that a cursor has passed are the bytes of the tokens it moved past. -/
theorem returned_start (script : Bytes) (n : Nat) :
    ((start 0 script).returned n).flatMap Token.bytes =
        script.take ((start 0 script).after n).index ∧
      ((start 0 script).after n).index = (((start 0 script).returned n).map Token.size).sum := by
  obtain ⟨written, moved⟩ := (start 0 script).rest_eq_returned_append n
  have index := moved.trans (Nat.zero_add _)
  have front : ((start 0 script).returned n).flatMap Token.bytes <+: script := ⟨_, written.symm⟩
  refine ⟨?_, index⟩
  rw [index, ← Token.length_flatMap_bytes]
  exact List.prefix_iff_eq_take.mp front

/-- However often a cursor is called from the start of a script on, it stands in the script right
behind the tokens that it has passed, and it stays in place once it has not moved. -/
theorem sound_after_start (version : UInt16) (script : Bytes) (n : Nat) :
    ((start version script).after n).Sound script ∧
      ((start 0 script).returned n).flatMap Token.bytes =
        script.take ((start 0 script).after n).index ∧
      ((start 0 script).after n).index = (((start 0 script).returned n).map Token.size).sum ∧
      ((start version script).steps n).countP Prod.fst ≤ script.length := by
  have stands := StandsIn.start version script
  obtain ⟨bytes, index⟩ := returned_start script n
  refine ⟨(stands.after n).sound, bytes, index, ?_⟩
  calc ((start version script).steps n).countP Prod.fst
    _ = ((start version script).returned n).length := countP_steps n _
    _ ≤ (start version script).rest.length := length_returned_le n _
    _ = script.length - (start version script).index := stands.length_rest
    _ ≤ script.length := Nat.sub_le _ _

/-- A push of one byte, and a push that is cut short. -/
def cutShort : Bytes := [0x01, 0xab, 0x4c, 0x02, 0x5d]

theorem sound_after_start_cutShort :
    ∃ c d, (start 0 cutShort).next = (true, c) ∧ c.next = (false, d) ∧
      c.token = some ⟨.data 1, [0xab]⟩ ∧ c.index = 2 ∧ [0xab] <:+ cutShort.take 2 ∧
      d.token = c.token ∧ d.index = 2 ∧ d.fault = some ⟨.pushData1, .payload, 2, 1⟩ ∧
      (∀ n, (d.after n).next = (false, d)) ∧
      ((start 0 cutShort).steps 9).countP Prod.fst ≤ 5 := by
  obtain ⟨c, d, moves, stops, token, index, fault⟩ :
      ∃ c d, (start 0 cutShort).next = (true, c) ∧ c.next = (false, d) ∧
        c.token = some ⟨.data 1, [0xab]⟩ ∧ c.index = 2 ∧
        d.fault = some ⟨.pushData1, .payload, 2, 1⟩ :=
    ⟨_, _, rfl, rfl, by decide, by decide, by decide⟩
  have first := (sound_after_start 0 cutShort 0).1
  have second := (sound_after_start 0 cutShort 1).1
  have count := (sound_after_start 0 cutShort 9).2.2.2
  obtain ⟨t, passed, _, _, _, data⟩ := first.moved c moves
  obtain rfl : t = ⟨.data 1, [0xab]⟩ := Option.some.inj (passed.symm.trans token)
  rw [after_succ, moves] at second
  obtain ⟨same, stays, _, frozen⟩ := second.stopped d stops
  exact ⟨c, d, moves, stops, token, index, index ▸ data, same, stays.trans index, fault, frozen,
    count⟩

end LockingScript.Cursor
