import LockingScript.Proofs.Token.Push
import LockingScript.Script.Build
import Mathlib.Data.List.Forall2

/-!
# What a script is built to hold

On every path a method asks once for all the room that it needs, before it writes anything. So a
step appends its bytes, which do not depend on the script, or leaves the script as it was.

Items that each append bytes of their own, whatever the script before them, make the script of all
these bytes, unless that is over the limit. Steps that append one token each make a script that is
read back as these tokens.
-/

namespace LockingScript

theorem Token.bytes_forLength (data : Bytes) :
    (Token.mk (.forLength data.length) data).bytes = pushPrefix data.length ++ data := by
  unfold Opcode.forLength pushPrefix
  split
  · rename_i direct
    have width : (Opcode.data data.length).prefixWidth = 0 := by
      rw [Opcode.prefixWidth, Opcode.lengthRule_data direct]
    rw [bytes, width]
    rfl
  · split
    · rfl
    · split <;> rfl

namespace Builder

theorem reserve_eq (s : Script) (room : Nat) :
    reserve room s =
      if maxScriptSize < s.size + room then .error (.scriptTooBig (s.size + room)) s
      else .ok () s := by
  have guarded : reserve room s =
      (if maxScriptSize < s.size + room then throw (.scriptTooBig (s.size + room))
        else pure () : Builder Unit) s := rfl
  rw [guarded]
  split <;> rfl

/-- The method appends the bytes, or has no room for them and leaves the script as it was. -/
def AppendsAtOnce (method : Builder Unit) (added : Bytes) : Prop :=
  ∀ s : Script, method s =
    if maxScriptSize < s.size + added.length then
      .error (.scriptTooBig (s.size + added.length)) s
    else .ok () ⟨s.bytes ++ added⟩

/-- It is enough to ask for the room first and to write the bytes, in however many parts, then. -/
theorem appendsAtOnce_of_reserve {added : Bytes} {rest : Builder Unit}
    (writes : ∀ s : Script, rest s = .ok () ⟨s.bytes ++ added⟩) :
    AppendsAtOnce (do reserve added.length; rest) added := by
  intro s
  simp only [bind, EStateM.bind, reserve_eq]
  by_cases tooBig : maxScriptSize < s.size + added.length
  · simp only [if_pos tooBig]
  · simp only [if_neg tooBig, writes]

theorem extend_eq (bytes : Bytes) (s : Script) : extend bytes s = .ok () ⟨s.bytes ++ bytes⟩ := rfl

theorem appendOpcode_appendsAtOnce (op : Opcode) : (appendOpcode op).AppendsAtOnce [op.byte] :=
  appendsAtOnce_of_reserve (extend_eq [op.byte])

theorem appendRaw_appendsAtOnce (bytes : Bytes) : (appendRaw bytes).AppendsAtOnce bytes :=
  appendsAtOnce_of_reserve (extend_eq bytes)

theorem appendOpcode_constant {op : Opcode} (rule : op.lengthRule = .fixed 0) :
    (appendOpcode op).AppendsAtOnce (Token.mk op []).bytes := by
  rw [Token.bytes_of_fixed_zero (Token.wellFormed_of_fixed_zero rule) rule]
  exact appendOpcode_appendsAtOnce op

theorem appendPush_of_tooLong {data : Bytes} (long : maxElementSize < data.length) (s : Script) :
    appendPush data s = .error (.elementTooBig data.length) s := by
  rw [appendPush, if_pos long]
  rfl

theorem appendPush_appendsAtOnce {data : Bytes} (short : data.length ≤ maxElementSize) :
    (appendPush data).AppendsAtOnce (Token.ofData data).bytes := by
  rw [appendPush, if_neg (Nat.not_lt_of_le short)]
  cases constant : Opcode.forData? data with
  | some op =>
      rw [Token.ofData_of_constant constant]
      exact appendOpcode_constant (Opcode.lengthRule_of_forData? constant)
  | none =>
      -- The prefix and the data are written one after the other, but room is asked for both.
      have writes (s : Script) :
          (extend (pushPrefix data.length) >>= fun _ => extend data) s =
            .ok () ⟨s.bytes ++ (pushPrefix data.length ++ data)⟩ := by
        rw [← List.append_assoc]
        rfl
      have atOnce := appendsAtOnce_of_reserve writes
      rw [List.length_append] at atOnce
      rw [Token.ofData_of_noConstant constant, Token.bytes_forLength]
      exact atOnce

theorem appendInt_appendsAtOnce (n : Int64) :
    (appendInt n).AppendsAtOnce (Token.ofInt n).bytes := by
  rw [appendInt, Token.ofInt]
  cases constant : Opcode.forInt? n with
  | some op => exact appendOpcode_constant (Opcode.lengthRule_of_forInt? constant)
  | none =>
      have short := Number.length_encode_le n
      exact appendPush_appendsAtOnce (Nat.le_trans short (by decide))

end Builder

namespace Step

/-- The bytes that a step appends. Only data that is too long for a push has none. -/
def encoding : Step → Except Error Bytes
  | .opcode op => .ok [op.byte]
  | .raw bytes => .ok bytes
  | .push data =>
      if maxElementSize < data.length then .error (.elementTooBig data.length)
      else .ok (Token.ofData data).bytes
  | .int n => .ok (Token.ofInt n).bytes

variable {step : Step}

theorem run_appendsAtOnce {added : Bytes} (encoded : step.encoding = .ok added) :
    step.run.AppendsAtOnce added := by
  cases step with
  | opcode op =>
      cases encoded
      exact Builder.appendOpcode_appendsAtOnce op
  | raw bytes =>
      obtain rfl : bytes = added := Except.ok.inj encoded
      exact Builder.appendRaw_appendsAtOnce bytes
  | push data =>
      rw [encoding] at encoded
      split at encoded
      · cases encoded
      · rename_i short
        cases encoded
        exact Builder.appendPush_appendsAtOnce (Nat.le_of_not_lt short)
  | int n =>
      cases encoded
      exact Builder.appendInt_appendsAtOnce n

theorem run_of_refused {cause : Error} (refused : step.encoding = .error cause) (s : Script) :
    step.run s = .error cause s := by
  cases step with
  | push data =>
      rw [encoding] at refused
      split at refused
      · rename_i long
        cases refused
        exact Builder.appendPush_of_tooLong long s
      · cases refused
  | opcode op | raw bytes | int n => cases refused

/-- A step that is refused, for whatever reason, leaves the script as it was. -/
theorem eq_of_run_eq_error {s t : Script} {cause : Error} (refused : step.run s = .error cause t) :
    t = s := by
  cases encoded : step.encoding with
  | error _ =>
      rw [run_of_refused encoded] at refused
      cases refused
      rfl
  | ok added =>
      rw [run_appendsAtOnce encoded s] at refused
      split at refused
      · cases refused
        rfl
      · cases refused

end Step

namespace Script

/-- The script with the bytes behind it, if there is room for them. -/
def append (s : Script) (added : Bytes) : Except Error Script :=
  if maxScriptSize < s.size + added.length then .error (.scriptTooBig (s.size + added.length))
  else .ok ⟨s.bytes ++ added⟩

theorem append_of_fits {s : Script} {added : Bytes}
    (fits : s.size + added.length ≤ maxScriptSize) : s.append added = .ok ⟨s.bytes ++ added⟩ := by
  rw [append, if_neg (by omega)]

theorem append_of_tooBig {s : Script} {added : Bytes}
    (tooBig : maxScriptSize < s.size + added.length) :
    s.append added = .error (.scriptTooBig (s.size + added.length)) := by
  rw [append, if_pos tooBig]

theorem append_eq_ok_iff {s t : Script} {added : Bytes} :
    s.append added = .ok t ↔
      s.size + added.length ≤ maxScriptSize ∧ ⟨s.bytes ++ added⟩ = t := by
  by_cases fits : s.size + added.length ≤ maxScriptSize
  · simp [append_of_fits fits, fits]
  · simp [append_of_tooBig (Nat.lt_of_not_le fits), fits]

section Growth

variable {Item : Type} {grow : Script → Item → Except Error Script}
  {items : List Item} {chunks : List Bytes}

/-- Each of the items appends its chunk, whatever it is appended to. -/
def Appends (grow : Script → Item → Except Error Script) (items : List Item)
    (chunks : List Bytes) : Prop :=
  List.Forall₂ (fun item chunk => ∀ s, grow s item = s.append chunk) items chunks

theorem foldlM_of_fits (appends : Appends grow items chunks) (s : Script)
    (fits : s.size + chunks.flatten.length ≤ maxScriptSize) :
    items.foldlM grow s = .ok ⟨s.bytes ++ chunks.flatten⟩ := by
  induction appends generalizing s with
  | nil => simp [pure, Except.pure]
  | @cons item chunk items chunks first _ ih =>
      rw [List.flatten_cons, List.length_append, ← Nat.add_assoc] at fits
      have grown : s.append chunk = .ok ⟨s.bytes ++ chunk⟩ := append_of_fits (by omega)
      have size : (Script.mk (s.bytes ++ chunk)).size = s.size + chunk.length :=
        List.length_append
      rw [List.foldlM_cons, first, grown]
      simpa [bind, Except.bind] using ih ⟨s.bytes ++ chunk⟩ (by rwa [size])

theorem foldlM_of_tooBig (appends : Appends grow items chunks) {s : Script}
    (room : s.size ≤ maxScriptSize)
    (tooBig : maxScriptSize < s.size + chunks.flatten.length) :
    ∃ length, items.foldlM grow s = .error (.scriptTooBig length) := by
  induction appends generalizing s with
  | nil => exact absurd tooBig (by simpa using room)
  | @cons item chunk items chunks first _ ih =>
      rw [List.flatten_cons, List.length_append, ← Nat.add_assoc] at tooBig
      rw [List.foldlM_cons, first]
      by_cases fits : s.size + chunk.length ≤ maxScriptSize
      · have size : (Script.mk (s.bytes ++ chunk)).size = s.size + chunk.length :=
          List.length_append
        obtain ⟨length, later⟩ :=
          ih (s := ⟨s.bytes ++ chunk⟩) (by rwa [size]) (by rwa [size])
        exact ⟨length, by rw [append_of_fits fits]; exact later⟩
      · exact ⟨_, by rw [append_of_tooBig (Nat.lt_of_not_le fits)]; rfl⟩

/-- Each item adds bytes of its own or is refused, whatever the script before it. -/
def Adds (grow : Script → Item → Except Error Script) (own : Item → Except Error Bytes) : Prop :=
  ∀ s item, grow s item = own item >>= s.append

variable {own : Item → Except Error Bytes} {item : Item}

theorem Adds.append (adds : Adds grow own) {added : Bytes} (accepted : own item = .ok added)
    (s : Script) : grow s item = s.append added := by
  rw [adds, accepted]
  rfl

theorem Adds.error (adds : Adds grow own) {cause : Error} (refused : own item = .error cause)
    (s : Script) : grow s item = .error cause := by
  rw [adds, refused]
  rfl

variable {s t : Script}

/-- Items that are all accepted add the same bytes to any script. -/
theorem exists_appends (adds : Adds grow own) (room : s.size ≤ maxScriptSize)
    (built : items.foldlM grow s = .ok t) :
    ∃ chunks, Appends grow items chunks ∧ s.size + chunks.flatten.length ≤ maxScriptSize ∧
      t = ⟨s.bytes ++ chunks.flatten⟩ := by
  induction items generalizing s with
  | nil =>
      obtain rfl : s = t := Except.ok.inj built
      exact ⟨[], .nil, by simpa using room, by simp⟩
  | cons item rest ih =>
      rw [List.foldlM_cons] at built
      cases chunk : own item with
      | error cause =>
          rw [adds.error chunk] at built
          cases built
      | ok added =>
          rw [adds.append chunk] at built
          by_cases fits : s.size + added.length ≤ maxScriptSize
          · have size : (Script.mk (s.bytes ++ added)).size = s.size + added.length :=
              List.length_append
            rw [append_of_fits fits] at built
            obtain ⟨chunks, appends, room, rfl⟩ := ih (by rwa [size]) built
            refine ⟨added :: chunks, .cons (adds.append chunk) appends, ?_, by simp⟩
            rwa [size, Nat.add_assoc, ← List.length_append, ← List.flatten_cons] at room
          · rw [append_of_tooBig (Nat.lt_of_not_le fits)] at built
            cases built

/-- Items that are refused are refused after a longer script too, for the same cause or for want
of room. -/
theorem foldlM_eq_error_of_le (adds : Adds grow own) {cause : Error} (longer : s.size ≤ t.size)
    (refused : items.foldlM grow s = .error cause) :
    items.foldlM grow t = .error cause ∨
      ∃ length, items.foldlM grow t = .error (.scriptTooBig length) := by
  induction items generalizing s t with
  | nil => cases refused
  | cons item rest ih =>
      rw [List.foldlM_cons] at refused ⊢
      cases chunk : own item with
      | error other =>
          rw [adds.error chunk] at refused ⊢
          exact .inl refused
      | ok added =>
          rw [adds.append chunk] at refused ⊢
          by_cases fits : t.size + added.length ≤ maxScriptSize
          · have still : s.size + added.length ≤ t.size + added.length :=
              Nat.add_le_add_right longer _
            rw [append_of_fits (Nat.le_trans still fits)] at refused
            rw [append_of_fits fits]
            refine ih ?_ refused
            rwa [size, size, List.length_append, List.length_append]
          · rw [append_of_tooBig (Nat.lt_of_not_le fits)]
            exact .inr ⟨_, rfl⟩

end Growth

theorem run_eq_ok_iff {s t : Script} {step : Step} :
    step.run s = .ok () t ↔ s.apply step = .ok t := by
  unfold apply
  cases step.run s <;> simp

theorem run_eq_error_iff {s : Script} {step : Step} {cause : Error} :
    step.run s = .error cause s ↔ s.apply step = .error cause := by
  unfold apply
  cases outcome : step.run s with
  | ok _ t => simp
  | error other t =>
      rw [Step.eq_of_run_eq_error outcome]
      simp

theorem apply_of_encoding {step : Step} {added : Bytes} (encoded : step.encoding = .ok added)
    (s : Script) : s.apply step = s.append added := by
  rw [apply, Step.run_appendsAtOnce encoded s, append]
  by_cases tooBig : maxScriptSize < s.size + added.length
  · simp only [if_pos tooBig]
  · simp only [if_neg tooBig]

theorem apply_of_refused {step : Step} {cause : Error} (refused : step.encoding = .error cause)
    (s : Script) : s.apply step = .error cause := by
  rw [apply, Step.run_of_refused refused]

theorem adds_apply : Adds apply Step.encoding := by
  intro s step
  cases encoded : step.encoding with
  | error cause => exact apply_of_refused encoded s
  | ok added => exact apply_of_encoding encoded s

theorem apply_eq_ok_iff {s t : Script} {step : Step} :
    s.apply step = .ok t ↔
      ∃ added, step.encoding = .ok added ∧ s.size + added.length ≤ maxScriptSize ∧
        ⟨s.bytes ++ added⟩ = t := by
  cases encoded : step.encoding with
  | error cause => simp [apply_of_refused encoded]
  | ok added => simp [apply_of_encoding encoded, append_eq_ok_iff]

end Script

namespace Step

/-- The step appends the bytes of the token. -/
def Writes (step : Step) (t : Token) : Prop :=
  t.WellFormed ∧ step.encoding = .ok t.bytes

theorem writes_opcode {op : Opcode} (rule : op.lengthRule = .fixed 0) :
    Writes (.opcode op) ⟨op, []⟩ := by
  have wellFormed := Token.wellFormed_of_fixed_zero rule
  exact ⟨wellFormed, by rw [Token.bytes_of_fixed_zero wellFormed rule, encoding]⟩

theorem writes_push {data : Bytes} (short : data.length ≤ maxElementSize) :
    Writes (.push data) (Token.ofData data) := by
  refine ⟨Token.wellFormed_ofData (Nat.lt_of_le_of_lt short (by decide)), ?_⟩
  rw [encoding, if_neg (Nat.not_lt_of_le short)]

/-- Hashes and keys are pushed directly. -/
theorem writes_bytesN {n : Nat} (b : BytesN n) (long : 2 ≤ n) (direct : n ≤ 75) :
    Writes (.push b.val) ⟨.data n, b.val⟩ := by
  rw [← Token.ofData_bytesN b long direct]
  exact writes_push (by rw [b.property]; exact Nat.le_trans direct (by decide))

theorem writes_int (n : Int64) : Writes (.int n) (Token.ofInt n) :=
  ⟨Token.wellFormed_ofInt n, rfl⟩

end Step

namespace Script

theorem build_of_writes {steps : List Step} {tokens : List Token}
    (writes : List.Forall₂ Step.Writes steps tokens)
    (fits : (tokens.map Token.size).sum ≤ maxScriptSize) :
    build steps = .ok ⟨tokens.flatMap Token.bytes⟩ := by
  have appends : Appends apply steps (tokens.map Token.bytes) := by
    rw [Appends, List.forall₂_map_right_iff]
    exact writes.imp fun step t written => apply_of_encoding written.2
  have length := Token.length_flatMap_bytes tokens
  rw [List.flatMap_def] at length ⊢
  exact foldlM_of_fits appends empty (by simpa [length, empty, size] using fits)

theorem tokenize_of_writes {steps : List Step} {tokens : List Token}
    (writes : List.Forall₂ Step.Writes steps tokens) :
    tokenize Reading.supportedVersion (tokens.flatMap Token.bytes) = .ok tokens := by
  refine tokenize_eq_ok_iff.mpr ⟨?_, rfl⟩
  intro t membership
  induction writes with
  | nil => cases membership
  | cons first _ ih =>
      rcases List.mem_cons.mp membership with rfl | later
      · exact first.1
      · exact ih later

theorem empty_apply_push {data : Bytes} (short : data.length ≤ maxElementSize) :
    empty.apply (.push data) = .ok ⟨(Token.ofData data).bytes⟩ := by
  have room : empty.size + (Token.ofData data).bytes.length ≤ maxScriptSize := by
    have small := Token.size_ofData_le data
    have none : empty.size = 0 := rfl
    rw [maxElementSize] at short
    rw [Token.length_bytes, none, maxScriptSize]
    omega
  rw [apply_of_encoding (Step.writes_push short).2, append_of_fits room]
  rfl

end Script

end LockingScript
