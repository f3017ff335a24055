import LockingScript.Proofs.Bytes.LittleEndian
import LockingScript.Token.Reader

/-!
# Reading undoes writing

A token is read off the front of a script exactly when the script begins with the bytes of that
token and the token is well formed. By induction over the script, reading a script and writing a
list of well-formed tokens are inverse to each other.
-/

namespace LockingScript

namespace Token

/-- The data is as long as the opcode asks for, or short enough for its length prefix. -/
def WellFormed (t : Token) : Prop :=
  match t.opcode.lengthRule with
  | .fixed size => t.data.length = size
  | .prefixed width => t.data.length < 256 ^ width

instance (t : Token) : Decidable t.WellFormed := by
  unfold WellFormed
  split <;> infer_instance

theorem bytes_of_fixed_zero {t : Token} (wellFormed : t.WellFormed)
    (rule : t.opcode.lengthRule = .fixed 0) : t.bytes = [t.opcode.byte] := by
  have noData : t.data = [] := by simpa [WellFormed, rule] using wellFormed
  simp [bytes, Opcode.prefixWidth, rule, noData, LittleEndian.encode]

theorem size_pos (t : Token) : 0 < t.size := by
  simp only [size]
  omega

theorem length_flatMap_bytes (tokens : List Token) :
    (tokens.flatMap bytes).length = (tokens.map size).sum := by
  simp [List.length_flatMap]

theorem read_bytes {t : Token} (wellFormed : t.WellFormed) (rest : Bytes) :
    read t.opcode (LittleEndian.encode t.opcode.prefixWidth t.data.length ++ t.data ++ rest) =
      .ok (t, rest) := by
  cases rule : t.opcode.lengthRule with
  | fixed size =>
      have full : t.data.length = size := by simpa [WellFormed, rule] using wellFormed
      have cut : (t.data ++ rest).cut? size = some (t.data, rest) :=
        Bytes.cut?_eq_some_iff.mpr ⟨rfl, full⟩
      simp [read, Opcode.prefixWidth, rule, LittleEndian.encode, cut]
  | prefixed width =>
      have fits : t.data.length < 256 ^ width := by simpa [WellFormed, rule] using wellFormed
      have outer : (LittleEndian.encode width t.data.length ++ (t.data ++ rest)).cut? width =
          some (LittleEndian.encode width t.data.length, t.data ++ rest) :=
        Bytes.cut?_eq_some_iff.mpr ⟨rfl, LittleEndian.length_encode _ _⟩
      have length : LittleEndian.decode (LittleEndian.encode width t.data.length) =
          t.data.length := by
        rw [LittleEndian.decode_encode, Nat.mod_eq_of_lt fits]
      have inner : (t.data ++ rest).cut? t.data.length = some (t.data, rest) :=
        Bytes.cut?_eq_some_iff.mpr ⟨rfl, rfl⟩
      simp [read, Opcode.prefixWidth, rule, outer, length, inner]

theorem bytes_of_read {op : Opcode} {after rest : Bytes} {t : Token}
    (result : read op after = .ok (t, rest)) :
    t.opcode = op ∧ t.WellFormed ∧ t.bytes ++ rest = op.byte :: after := by
  unfold read at result
  cases rule : op.lengthRule with
  | fixed size =>
      simp only [rule] at result
      split at result
      · rename_i data rest cut
        obtain ⟨rfl, full⟩ := Bytes.cut?_eq_some_iff.mp cut
        cases result
        exact ⟨rfl, by simpa [WellFormed, rule] using full,
          by simp [bytes, Opcode.prefixWidth, rule, LittleEndian.encode]⟩
      · cases result
  | prefixed width =>
      simp only [rule] at result
      split at result
      · cases result
      · rename_i length payload outer
        obtain ⟨rfl, width_eq⟩ := Bytes.cut?_eq_some_iff.mp outer
        split at result
        · rename_i data rest inner
          obtain ⟨rfl, full⟩ := Bytes.cut?_eq_some_iff.mp inner
          cases result
          have fits := LittleEndian.decode_lt length
          have written : LittleEndian.encode width (LittleEndian.decode length) = length := by
            rw [← width_eq, LittleEndian.encode_decode]
          refine ⟨rfl, ?_, ?_⟩
          · simpa [WellFormed, rule, full, width_eq] using fits
          · simp [bytes, Opcode.prefixWidth, rule, full, written]
        · cases result

end Token

namespace Reading

@[simp] theorem ofBytes_nil : ofBytes [] = empty := by rw [ofBytes]

theorem ofBytes_cons_of_error {b : UInt8} {after : Bytes} {fault : MalformedPush}
    (cut : Token.read ⟨b⟩ after = .error fault) :
    ofBytes (b :: after) = ⟨[], b :: after, some fault⟩ := by
  rw [ofBytes]
  split
  · rename_i other found
    rw [cut] at found
    cases found
    rfl
  · rename_i found
    rw [cut] at found
    cases found

theorem ofBytes_bytes_append {t : Token} (wellFormed : t.WellFormed) (rest : Bytes) :
    ofBytes (t.bytes ++ rest) = (ofBytes rest).cons t := by
  have first := Token.read_bytes wellFormed rest
  simp only [Token.bytes, List.cons_append]
  rw [ofBytes]
  split
  · rename_i found
    rw [first] at found
    cases found
  · rename_i found
    rw [first] at found
    cases found
    rfl

/-- A script begins with a token, or it is empty, or its first token is cut short. -/
theorem ofBytes_cases (script : Bytes) :
    script = [] ∨
      (∃ (t : Token) (rest : Bytes), t.WellFormed ∧ script = t.bytes ++ rest) ∨
      ∃ b after fault, script = b :: after ∧ Token.read ⟨b⟩ after = .error fault := by
  cases script with
  | nil => exact .inl rfl
  | cons b after =>
      cases found : Token.read ⟨b⟩ after with
      | error fault => exact .inr (.inr ⟨b, after, fault, rfl, found⟩)
      | ok result =>
          obtain ⟨_, wellFormed, written⟩ := Token.bytes_of_read found
          exact .inr (.inl ⟨result.1, result.2, wellFormed, written.symm⟩)

/-- Scripts are taken apart from the front: what holds of the empty script and of a script whose
first push is cut short, and goes over from the rest to a script with one more token in front,
holds of every script. -/
theorem induction_on_script {P : Bytes → Prop} (script : Bytes) (nil : P [])
    (malformed : ∀ b after fault, Token.read ⟨b⟩ after = .error fault → P (b :: after))
    (token : ∀ (t : Token) (rest : Bytes), t.WellFormed → P rest → P (t.bytes ++ rest)) :
    P script := by
  induction length : script.length using Nat.strongRecOn generalizing script with
  | ind n ih =>
      rcases ofBytes_cases script with rfl | ⟨t, rest, wellFormed, rfl⟩ |
        ⟨b, after, fault, rfl, cut⟩
      · exact nil
      · have shorter : rest.length < n := by
          have := t.size_pos
          rw [List.length_append, Token.length_bytes] at length
          omega
        exact token t rest wellFormed (ih rest.length shorter rest rfl)
      · exact malformed b after fault cut

/-- The tokens that were read and the bytes that were not make up the script. -/
theorem bytes_tokens_append_rest (script : Bytes) :
    (ofBytes script).tokens.flatMap Token.bytes ++ (ofBytes script).rest = script := by
  induction script using induction_on_script with
  | nil => simp [empty]
  | malformed b after fault cut => simp [ofBytes_cons_of_error cut]
  | token t rest wellFormed ih => simp [ofBytes_bytes_append wellFormed, cons, ih]

theorem wellFormed_of_mem_tokens {script : Bytes} {t : Token}
    (membership : t ∈ (ofBytes script).tokens) : t.WellFormed := by
  induction script using induction_on_script with
  | nil => simp [empty] at membership
  | malformed b after fault cut => simp [ofBytes_cons_of_error cut] at membership
  | token first rest wellFormed ih =>
      simp only [ofBytes_bytes_append wellFormed, cons, List.mem_cons] at membership
      rcases membership with rfl | later
      · exact wellFormed
      · exact ih later

/-- Bytes are left over exactly when a push was cut short. -/
theorem fault_eq_none_iff (script : Bytes) :
    (ofBytes script).fault = none ↔ (ofBytes script).rest = [] := by
  induction script using induction_on_script with
  | nil => simp [empty]
  | malformed b after fault cut => simp [ofBytes_cons_of_error cut]
  | token t rest wellFormed ih => simpa [ofBytes_bytes_append wellFormed, cons] using ih

theorem ofBytes_flatMap_bytes_append {tokens : List Token}
    (wellFormed : ∀ t ∈ tokens, t.WellFormed) (rest : Bytes) :
    ofBytes (tokens.flatMap Token.bytes ++ rest) =
      { ofBytes rest with tokens := tokens ++ (ofBytes rest).tokens } := by
  induction tokens with
  | nil => rfl
  | cons t tokens ih =>
      have later := ih fun u membership => wellFormed u (List.mem_cons_of_mem t membership)
      rw [List.flatMap_cons, List.append_assoc,
        ofBytes_bytes_append (wellFormed t List.mem_cons_self), later]
      rfl

end Reading

theorem Reading.ofScript_zero (script : Bytes) : ofScript 0 script = ofBytes script := if_pos rfl

theorem Reading.wellFormed_of_mem_ofScript {version : UInt16} {script : Bytes} {t : Token}
    (membership : t ∈ (ofScript version script).tokens) : t.WellFormed := by
  unfold ofScript at membership
  split at membership
  · exact wellFormed_of_mem_tokens membership
  · cases membership

theorem tokenize_eq_error_iff {version : UInt16} {script : Bytes} {fault : MalformedPush} :
    tokenize version script = .error fault ↔
      (Reading.ofScript version script).fault = some fault := by
  simp only [tokenize]
  split
  · rename_i found
    rw [found, Except.error.injEq, Option.some.injEq]
  · rename_i whole
    simp [whole]

theorem wellFormed_of_tokenize {version : UInt16} {script : Bytes} {tokens : List Token}
    (tokenized : tokenize version script = .ok tokens) : ∀ t ∈ tokens, t.WellFormed := by
  simp only [tokenize] at tokenized
  split at tokenized
  · cases tokenized
  · cases tokenized
    intro t membership
    exact Reading.wellFormed_of_mem_ofScript membership

/-- The tokens of a script are the one way of writing it with well-formed tokens. -/
theorem tokenize_eq_ok_iff {script : Bytes} {tokens : List Token} :
    tokenize Reading.supportedVersion script = .ok tokens ↔
      (∀ t ∈ tokens, t.WellFormed) ∧ tokens.flatMap Token.bytes = script := by
  simp only [tokenize, Reading.ofScript, if_pos]
  constructor
  · intro result
    split at result
    · cases result
    · rename_i sound
      cases result
      have rest := (Reading.fault_eq_none_iff script).mp sound
      have whole := Reading.bytes_tokens_append_rest script
      rw [rest, List.append_nil] at whole
      exact ⟨fun t => Reading.wellFormed_of_mem_tokens, whole⟩
  · rintro ⟨wellFormed, rfl⟩
    have read := Reading.ofBytes_flatMap_bytes_append wellFormed []
    simp only [List.append_nil, Reading.ofBytes_nil, Reading.empty] at read
    rw [read]

theorem Reading.ofBytes_of_tokenize {script : Bytes} {tokens : List Token}
    (tokenized : tokenize supportedVersion script = .ok tokens) :
    ofBytes script = ⟨tokens, [], none⟩ := by
  obtain ⟨wellFormed, rfl⟩ := tokenize_eq_ok_iff.mp tokenized
  have read := ofBytes_flatMap_bytes_append wellFormed []
  simpa [empty] using read

/-- A script behind tokens is read as it is read alone, and a fault of it stays as it is. -/
theorem tokenize_append_eq_map {a : Bytes} {front : List Token}
    (tokenized : tokenize Reading.supportedVersion a = .ok front) (b : Bytes) :
    tokenize Reading.supportedVersion (a ++ b) =
      (tokenize Reading.supportedVersion b).map (front ++ ·) := by
  obtain ⟨wellFormed, rfl⟩ := tokenize_eq_ok_iff.mp tokenized
  simp only [tokenize, Reading.ofScript, if_pos, Reading.ofBytes_flatMap_bytes_append wellFormed]
  cases (Reading.ofBytes b).fault <;> rfl

theorem tokenize_bytes {t : Token} (wellFormed : t.WellFormed) :
    tokenize Reading.supportedVersion t.bytes = .ok [t] :=
  tokenize_eq_ok_iff.mpr ⟨List.forall_mem_singleton.mpr wellFormed, List.flatMap_singleton _ _⟩

theorem tokenize_bytes_append {t : Token} (wellFormed : t.WellFormed) (rest : Bytes) :
    tokenize Reading.supportedVersion (t.bytes ++ rest) =
      (tokenize Reading.supportedVersion rest).map (t :: ·) :=
  tokenize_append_eq_map (tokenize_bytes wellFormed) rest

theorem tokenize_append {a b : Bytes} {front back : List Token}
    (first : tokenize Reading.supportedVersion a = .ok front)
    (second : tokenize Reading.supportedVersion b = .ok back) :
    tokenize Reading.supportedVersion (a ++ b) = .ok (front ++ back) := by
  rw [tokenize_append_eq_map first, second]
  rfl

end LockingScript
