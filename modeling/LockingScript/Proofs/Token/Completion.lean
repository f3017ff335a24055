import LockingScript.Proofs.Token.Truncation

/-!
# What a push that is cut short asks for

A fault says how many bytes the missing part takes and how many of them are there. With fewer bytes
than the difference the script stays malformed, at the same place. With as many the push is whole,
or its length prefix is, which then asks for the data.
-/

namespace LockingScript

theorem Bytes.cut?_whole {n : Nat} {b : Bytes} (length : b.length = n) :
    b.cut? n = some (b, []) :=
  cut?_eq_some_iff.mpr ⟨(List.append_nil b).symm, length⟩

namespace MalformedPush

/-- The bytes that are there of the part that is cut short. A script ends in them. -/
def held (fault : MalformedPush) (script : Bytes) : Bytes :=
  script.drop (script.length - fault.remaining)

variable {fault : MalformedPush} {after : Bytes}

theorem held_append (front : Bytes) (within : fault.remaining ≤ after.length) :
    fault.held (front ++ after) = fault.held after := by
  rw [held, held, List.length_append, Nat.add_sub_assoc within, List.drop_length_add_append]

theorem length_held (within : fault.remaining ≤ after.length) :
    (fault.held after).length = fault.remaining := by
  rw [held, List.length_drop, Nat.sub_sub_self within]

theorem held_of_length_eq (all : after.length = fault.remaining) : fault.held after = after := by
  rw [held, all, Nat.sub_self, List.drop_zero]

end MalformedPush

namespace Token

variable {op : Opcode} {after : Bytes} {fault : MalformedPush} {x : Bytes}

/-- How the bytes after an opcode fall short, and the fault that says so. -/
inductive CutShort (op : Opcode) : Bytes → MalformedPush → Prop where
  | direct {size : Nat} {data : Bytes} : op.lengthRule = .fixed size → data.length < size →
      CutShort op data ⟨op, .direct, size, data.length⟩
  | lengthPrefix {width : Nat} {length : Bytes} : op.lengthRule = .prefixed width →
      length.length < width → CutShort op length ⟨op, .lengthPrefix, width, length.length⟩
  | payload {length data : Bytes} : op.lengthRule = .prefixed length.length →
      data.length < LittleEndian.decode length →
      CutShort op (length ++ data) ⟨op, .payload, LittleEndian.decode length, data.length⟩

theorem cutShort_of_read (failed : read op after = .error fault) : CutShort op after fault := by
  unfold read at failed
  cases rule : op.lengthRule with
  | fixed size =>
      simp only [rule] at failed
      split at failed
      · cases failed
      · rename_i short
        cases failed
        exact .direct rule (Bytes.cut?_eq_none_iff.mp short)
  | prefixed width =>
      simp only [rule] at failed
      split at failed
      · rename_i short
        cases failed
        exact .lengthPrefix rule (Bytes.cut?_eq_none_iff.mp short)
      · rename_i length data outer
        obtain ⟨rfl, rfl⟩ := Bytes.cut?_eq_some_iff.mp outer
        split at failed
        · cases failed
        · rename_i short
          cases failed
          exact .payload rule (Bytes.cut?_eq_none_iff.mp short)

namespace CutShort

theorem read (cut : CutShort op after fault) : Token.read op after = .error fault := by
  cases cut with
  | direct rule short => simp only [Token.read, rule, Bytes.cut?_eq_none_iff.mpr short]
  | lengthPrefix rule short => simp only [Token.read, rule, Bytes.cut?_eq_none_iff.mpr short]
  | @payload length data rule short =>
      have outer : (length ++ data).cut? length.length = some (length, data) :=
        Bytes.cut?_eq_some_iff.mpr ⟨rfl, rfl⟩
      simp only [Token.read, rule, outer, Bytes.cut?_eq_none_iff.mpr short]

theorem opcode_eq (cut : CutShort op after fault) : fault.opcode = op := by
  cases cut <;> rfl

theorem remaining_lt_needed (cut : CutShort op after fault) : fault.remaining < fault.needed := by
  cases cut <;> assumption

theorem remaining_le_length (cut : CutShort op after fault) : fault.remaining ≤ after.length := by
  cases cut with
  | direct => exact Nat.le_refl _
  | lengthPrefix => exact Nat.le_refl _
  | payload =>
      rw [List.length_append]
      exact Nat.le_add_left _ _

/-- Too few further bytes change nothing but how many of them are there. -/
theorem append (cut : CutShort op after fault)
    (short : fault.remaining + x.length < fault.needed) :
    CutShort op (after ++ x) { fault with remaining := fault.remaining + x.length } := by
  cases cut with
  | direct rule =>
      rw [← List.length_append] at short ⊢
      exact .direct rule short
  | lengthPrefix rule =>
      rw [← List.length_append] at short ⊢
      exact .lengthPrefix rule short
  | payload rule =>
      rw [← List.length_append] at short ⊢
      rw [List.append_assoc]
      exact .payload rule short

/-- The missing bytes make the push whole. -/
theorem read_of_full (cut : CutShort op after fault)
    (full : (fault.held after ++ x).length = fault.needed) (part : fault.part ≠ .lengthPrefix) :
    Token.read op (after ++ x) = .ok (⟨op, fault.held after ++ x⟩, []) := by
  cases cut with
  | direct rule =>
      rw [MalformedPush.held_of_length_eq rfl] at full ⊢
      simp only [Token.read, rule, Bytes.cut?_whole full]
  | lengthPrefix => exact absurd rfl part
  | @payload length data rule =>
      -- The length prefix was whole before and says the same.
      rw [MalformedPush.held_append length (Nat.le_refl data.length),
        MalformedPush.held_of_length_eq rfl] at full ⊢
      have outer : (length ++ (data ++ x)).cut? length.length = some (length, data ++ x) :=
        Bytes.cut?_eq_some_iff.mpr ⟨rfl, rfl⟩
      simp only [Token.read, rule, List.append_assoc, outer, Bytes.cut?_whole full]

section LengthPrefix

variable (cut : CutShort op after fault) (full : (fault.held after ++ x).length = fault.needed)
  (part : fault.part = .lengthPrefix)
include cut full part

theorem lengthRule_and_held_of_lengthPrefix :
    op.lengthRule = .prefixed (after ++ x).length ∧ fault.held after = after := by
  cases cut with
  | direct => cases part
  | payload => cases part
  | lengthPrefix rule =>
      rw [MalformedPush.held_of_length_eq rfl] at full
      exact ⟨full ▸ rule, MalformedPush.held_of_length_eq rfl⟩

/-- The missing bytes of a length prefix that says that there is no data make an empty push. -/
theorem read_of_zero_length (zero : LittleEndian.decode (fault.held after ++ x) = 0) :
    Token.read op (after ++ x) = .ok (⟨op, []⟩, []) := by
  obtain ⟨rule, all⟩ := lengthRule_and_held_of_lengthPrefix cut full part
  rw [all] at zero
  have inner : Bytes.cut? 0 [] = some ([], []) := rfl
  simp only [Token.read, rule, Bytes.cut?_whole rfl, zero, inner]

/-- The missing bytes of any other length prefix leave the data to ask for. -/
theorem payload_of_length_ne_zero (counts : LittleEndian.decode (fault.held after ++ x) ≠ 0) :
    CutShort op (after ++ x)
      ⟨op, .payload, LittleEndian.decode (fault.held after ++ x), 0⟩ := by
  obtain ⟨rule, all⟩ := lengthRule_and_held_of_lengthPrefix cut full part
  rw [all] at counts ⊢
  have asks : CutShort op ((after ++ x) ++ [])
      ⟨op, .payload, LittleEndian.decode (after ++ x), [].length⟩ :=
    .payload rule (Nat.pos_of_ne_zero counts)
  rwa [List.append_nil] at asks

end LengthPrefix

end CutShort

end Token

section Completion

variable {script : Bytes} {tokens : List Token} {b : UInt8} {after : Bytes} {fault : MalformedPush}

/-- A malformed script is the bytes of tokens and a push that is cut short. -/
theorem exists_cut_of_malformed (malformed : tokenize 0 script = .error fault) :
    ∃ (tokens : List Token) (after : Bytes), (∀ t ∈ tokens, t.WellFormed) ∧
      script = tokens.flatMap Token.bytes ++ fault.opcode.byte :: after ∧
        Token.CutShort fault.opcode after fault := by
  have stopped : (Reading.ofBytes script).fault = some fault := tokenize_eq_error_iff.mp malformed
  clear malformed
  induction script using Reading.induction_on_script with
  | nil => simp [Reading.empty] at stopped
  | malformed b after other failed =>
      rw [Reading.ofBytes_cons_of_error failed] at stopped
      obtain rfl : other = fault := Option.some.inj stopped
      have cut := Token.cutShort_of_read failed
      rw [cut.opcode_eq]
      exact ⟨[], after, List.forall_mem_nil _, rfl, cut⟩
  | token t rest wellFormed ih =>
      rw [Reading.ofBytes_bytes_append wellFormed] at stopped
      obtain ⟨tokens, after, others, written, cut⟩ := ih stopped
      refine ⟨t :: tokens, after, List.forall_mem_cons.mpr ⟨wellFormed, others⟩, ?_, cut⟩
      rw [List.flatMap_cons, List.append_assoc, ← written]

theorem tokenize_of_read (wellFormed : ∀ t ∈ tokens, t.WellFormed) {t : Token}
    (read : Token.read ⟨b⟩ after = .ok (t, [])) :
    tokenize 0 (tokens.flatMap Token.bytes ++ b :: after) = .ok (tokens ++ [t]) := by
  obtain ⟨-, last, written⟩ := Token.bytes_of_read read
  rw [List.append_nil] at written
  have back : tokenize 0 (b :: after) = .ok [t] := written ▸ tokenize_bytes last
  exact tokenize_append (tokenize_eq_ok_iff.mpr ⟨wellFormed, rfl⟩) back

/-- The numbers in a fault say what completing the script does. With fewer bytes than are missing
it stays malformed at the same place. With as many a push is whole, or its length prefix is: then
the push is empty or asks for all the data that its prefix says. -/
theorem tokenize_append_of_malformed (malformed : tokenize 0 script = .error fault) :
    fault.remaining < fault.needed ∧
      ∃ tokens, StopsBehind script tokens fault ∧
        (∀ x : Bytes, x.length < fault.needed - fault.remaining →
          StopsBehind (script ++ x) tokens
            { fault with remaining := fault.remaining + x.length }) ∧
        ∀ x : Bytes, x.length = fault.needed - fault.remaining →
          (fault.held script ++ x).length = fault.needed ∧
            (fault.part ≠ .lengthPrefix →
              tokenize 0 (script ++ x) =
                .ok (tokens ++ [⟨fault.opcode, fault.held script ++ x⟩])) ∧
            (fault.part = .lengthPrefix →
              (LittleEndian.decode (fault.held script ++ x) = 0 →
                tokenize 0 (script ++ x) = .ok (tokens ++ [⟨fault.opcode, []⟩])) ∧
              (LittleEndian.decode (fault.held script ++ x) ≠ 0 →
                StopsBehind (script ++ x) tokens
                  ⟨fault.opcode, .payload, LittleEndian.decode (fault.held script ++ x), 0⟩)) := by
  obtain ⟨tokens, after, wellFormed, written, cut⟩ := exists_cut_of_malformed malformed
  have missing := cut.remaining_lt_needed
  have within := cut.remaining_le_length
  have held : fault.held script = fault.held after := by
    rw [written, List.append_cons, MalformedPush.held_append _ within]
  have joined (x : Bytes) :
      script ++ x = tokens.flatMap Token.bytes ++ fault.opcode.byte :: (after ++ x) := by
    rw [written, List.append_assoc, List.cons_append]
  have stops : StopsBehind script tokens fault := written ▸ stopsBehind_of_cut wellFormed cut.read
  simp only [held, joined]
  refine ⟨missing, tokens, stops, ?_, ?_⟩
  · intro x short
    exact stopsBehind_of_cut wellFormed (cut.append (Nat.add_lt_of_lt_sub' short)).read
  · intro x length
    have full : (fault.held after ++ x).length = fault.needed := by
      rw [List.length_append, MalformedPush.length_held within, length,
        Nat.add_sub_cancel' (Nat.le_of_lt missing)]
    refine ⟨full, ?_, ?_⟩
    · intro part
      exact tokenize_of_read wellFormed (cut.read_of_full full part)
    · intro part
      constructor
      · intro zero
        exact tokenize_of_read wellFormed (cut.read_of_zero_length full part zero)
      · intro counts
        exact stopsBehind_of_cut wellFormed (cut.payload_of_length_ne_zero full part counts).read

end Completion

/-- An opcode, and a push that has half of its length prefix: with the other half its data is
missing, and with half of the data the other half. -/
theorem tokenize_append_of_malformed_halves :
    tokenize 0 [0x76, 0x4d, 0x02] = .error ⟨.pushData2, .lengthPrefix, 2, 1⟩ ∧
      (∃ tokens, StopsBehind [0x76, 0x4d, 0x02] tokens ⟨.pushData2, .lengthPrefix, 2, 1⟩ ∧
        StopsBehind [0x76, 0x4d, 0x02, 0x00] tokens ⟨.pushData2, .payload, 2, 0⟩) ∧
      tokenize 0 [0x76, 0x4d, 0x02, 0x00] = .error ⟨.pushData2, .payload, 2, 0⟩ ∧
      ∃ tokens, StopsBehind [0x76, 0x4d, 0x02, 0x00] tokens ⟨.pushData2, .payload, 2, 0⟩ ∧
        StopsBehind [0x76, 0x4d, 0x02, 0x00, 0xab] tokens ⟨.pushData2, .payload, 2, 1⟩ ∧
        tokenize 0 [0x76, 0x4d, 0x02, 0x00, 0xab, 0xcd] =
          .ok (tokens ++ [⟨.pushData2, [0xab, 0xcd]⟩]) := by
  have half : tokenize 0 [0x76, 0x4d, 0x02] = .error ⟨.pushData2, .lengthPrefix, 2, 1⟩ := by
    decide +kernel
  obtain ⟨-, tokens, stops, -, whole⟩ := tokenize_append_of_malformed half
  have asks := ((whole [0x00] rfl).2.2 rfl).2 (by decide)
  have noData := asks.malformed
  obtain ⟨-, before, stopped, fewer, enough⟩ := tokenize_append_of_malformed noData
  exact ⟨half, ⟨tokens, stops, asks⟩, noData, before, stopped, fewer [0xab] (by decide),
    (enough [0xab, 0xcd] rfl).2.1 (by decide)⟩

end LockingScript
