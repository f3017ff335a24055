import LockingScript.Proofs.Text.Writing
import LockingScript.Proofs.Token.Cursor
import LockingScript.Proofs.Token.Rendering

/-!
# The short form of joined scripts

The short form is written token by token, and no token is shown as nothing. So a script that can be
read to its end is shown in front of any other script as it is shown alone, with a blank between the
two. A script that cannot is the part that can be read, joined with bytes that are shown as the
mark.
-/

namespace LockingScript

namespace Token

theorem shortForm_ne_empty {t : Token} (wellFormed : t.WellFormed) (style : PushStyle) :
    t.shortForm style ≠ "" := by
  obtain ⟨word, rest, words⟩ := List.exists_cons_of_ne_nil (t.words_ne_nil style)
  have listed : word ∈ t.words style := words ▸ List.mem_cons_self
  have bare := isBareWord_of_mem_words wellFormed listed
  rw [shortForm, words]
  apply Text.intercalate_cons_ne_empty
  rintro rfl
  exact bare.1 rfl

theorem flatMap_words_eq_nil_iff {style : PushStyle} {tokens : List Token} :
    tokens.flatMap (words style) = [] ↔ tokens = [] := by
  cases tokens with
  | nil => simp
  | cons t rest => simp [t.words_ne_nil style]

/-- The words of tokens in front of other words make the same text as their short forms do. -/
theorem intercalate_words_append (style : PushStyle) (tokens : List Token) (others : List String) :
    " ".intercalate (tokens.flatMap (words style) ++ others) =
      " ".intercalate (tokens.map (shortForm style) ++ others) := by
  induction tokens with
  | nil => rfl
  | cons t rest ih =>
      rw [List.flatMap_cons, List.append_assoc, List.map_cons, List.cons_append]
      by_cases alone : rest = [] ∧ others = []
      · obtain ⟨rfl, rfl⟩ := alone
        simp [shortForm]
      · have words : rest.flatMap (words style) ++ others ≠ [] := by
          rwa [ne_eq, List.append_eq_nil_iff, flatMap_words_eq_nil_iff]
        have shortForms : rest.map (shortForm style) ++ others ≠ [] := by
          rwa [ne_eq, List.append_eq_nil_iff, List.map_eq_nil_iff]
        rw [String.intercalate_append_of_ne_nil (t.words_ne_nil style) words, ih,
          String.intercalate_cons_of_ne_nil shortForms, shortForm]

end Token

namespace Reading

/-- The short forms of the tokens, and the mark for what could not be read. -/
def shortForms (style : PushStyle) (r : Reading) : List String :=
  r.tokens.map (Token.shortForm style) ++ r.errorWords

variable {style : PushStyle}

theorem ne_empty_of_mem_shortForms {r : Reading} (wellFormed : ∀ t ∈ r.tokens, t.WellFormed) :
    ∀ unit ∈ r.shortForms style, unit ≠ "" := by
  refine forall_mem_append_errorWords ?_ (by decide)
  intro unit listed
  obtain ⟨t, membership, rfl⟩ := List.mem_map.mp listed
  exact Token.shortForm_ne_empty (wellFormed t membership) style

/-- The short form is written token by token. -/
theorem shortForm_eq_written {r : Reading} (wellFormed : ∀ t ∈ r.tokens, t.WellFormed) :
    r.shortForm style = Text.written (r.shortForms style) := by
  rw [Text.written_of_seen (ne_empty_of_mem_shortForms wellFormed), shortForm,
    Token.intercalate_words_append, shortForms]

theorem shortForms_eq_nil_iff {script : Bytes} :
    (ofBytes script).shortForms style = [] ↔ script = [] := by
  rw [shortForms, List.append_eq_nil_iff, List.map_eq_nil_iff, nothing_to_show_iff]

theorem ne_empty_of_mem_shortForms_ofBytes (style : PushStyle) (script : Bytes) :
    ∀ unit ∈ (ofBytes script).shortForms style, unit ≠ "" :=
  ne_empty_of_mem_shortForms fun _ => wellFormed_of_mem_tokens

theorem shortForm_ofBytes (script : Bytes) :
    (ofBytes script).shortForm style = Text.written ((ofBytes script).shortForms style) :=
  shortForm_eq_written fun _ => wellFormed_of_mem_tokens

theorem shortForm_ofBytes_eq_empty_iff {script : Bytes} :
    (ofBytes script).shortForm style = "" ↔ script = [] := by
  have seen := ne_empty_of_mem_shortForms_ofBytes style script
  rw [shortForm_ofBytes, Text.written_eq_empty_iff seen, shortForms_eq_nil_iff]

/-- Tokens in front of a script are shown in front of it. -/
theorem shortForms_append {a : Bytes} {tokens : List Token} (tokenized : tokenize 0 a = .ok tokens)
    (b : Bytes) :
    (ofBytes (a ++ b)).shortForms style =
      (ofBytes a).shortForms style ++ (ofBytes b).shortForms style := by
  have alone := ofBytes_of_tokenize tokenized
  obtain ⟨wellFormed, rfl⟩ := tokenize_eq_ok_iff.mp tokenized
  rw [ofBytes_flatMap_bytes_append wellFormed b, alone]
  simp [shortForms, errorWords]

theorem shortForm_ofBytes_append (style : PushStyle) {a : Bytes} {tokens : List Token}
    (tokenized : tokenize 0 a = .ok tokens) (b : Bytes) :
    (ofBytes (a ++ b)).shortForm style =
      (ofBytes a).shortForm style ++ (if a ≠ [] ∧ b ≠ [] then " " else "") ++
        (ofBytes b).shortForm style := by
  have seen := ne_empty_of_mem_shortForms_ofBytes style b
  rw [shortForm_ofBytes (a ++ b), shortForms_append tokenized, Text.written_append _ seen,
    ← shortForm_ofBytes, ← shortForm_ofBytes]
  simp only [ne_eq, shortForm_ofBytes_eq_empty_iff, shortForms_eq_nil_iff]

/-- Where reading stops, the rest of the script is nothing but a push that is cut short. -/
theorem ofBytes_rest (script : Bytes) :
    ofBytes (ofBytes script).rest = ⟨[], (ofBytes script).rest, (ofBytes script).fault⟩ := by
  induction script using induction_on_script with
  | nil => simp [empty]
  | malformed b after fault cut => simp [ofBytes_cons_of_error cut]
  | token t rest wellFormed ih => simpa [ofBytes_bytes_append wellFormed, cons] using ih

/-- The bytes that were read are those of the tokens. -/
theorem take_consumed (script : Bytes) :
    script.take (ofBytes script).consumed = (ofBytes script).tokens.flatMap Token.bytes := by
  have front : (ofBytes script).tokens.flatMap Token.bytes <+: script :=
    ⟨_, bytes_tokens_append_rest script⟩
  rw [← length_flatMap_bytes]
  exact (List.prefix_iff_eq_take.mp front).symm

theorem tokenize_take_consumed (script : Bytes) :
    tokenize 0 (script.take (ofBytes script).consumed) = .ok (ofBytes script).tokens := by
  refine tokenize_eq_ok_iff.mpr ⟨fun _ => wellFormed_of_mem_tokens, ?_⟩
  exact (take_consumed script).symm

theorem shortForm_ofBytes_of_fault {script : Bytes} {fault : MalformedPush}
    (stopped : (ofBytes script).fault = some fault) :
    (ofBytes script).shortForm style =
      (ofBytes (script.take (ofBytes script).consumed)).shortForm style ++
        (if 0 < (ofBytes script).consumed then " " else "") ++ errorMark := by
  have whole : script.take (ofBytes script).consumed ++ (ofBytes script).rest = script := by
    rw [take_consumed, bytes_tokens_append_rest]
  have left : (ofBytes script).rest ≠ [] := by
    rw [ne_eq, ← fault_eq_none_iff, stopped]
    exact Option.some_ne_none fault
  have mark : (ofBytes (ofBytes script).rest).shortForm style = errorMark := by
    rw [ofBytes_rest, stopped]
    exact String.intercalate_singleton
  have begun : script.take (ofBytes script).consumed ≠ [] ↔ 0 < (ofBytes script).consumed := by
    rw [← List.length_pos_iff, take_consumed, length_flatMap_bytes]
  have joined := shortForm_ofBytes_append style (tokenize_take_consumed script)
    (ofBytes script).rest
  rw [whole, mark] at joined
  simpa [begun, left] using joined

/-- A script that can be read to its end is shown in front of any other script as it is shown alone.
A script that cannot is shown up to where reading stops, with the mark in place of the rest. -/
theorem shortForm_append :
    (∀ (a b : Bytes) (tokens : List Token) (style : PushStyle), tokenize 0 a = .ok tokens →
      (ofScript 0 (a ++ b)).shortForm style =
        (ofScript 0 a).shortForm style ++ (if a ≠ [] ∧ b ≠ [] then " " else "") ++
          (ofScript 0 b).shortForm style) ∧
    ∀ (script : Bytes) (fault : MalformedPush) (style : PushStyle),
      tokenize 0 script = .error fault →
        (ofScript 0 script).shortForm style =
          (ofScript 0 (script.take (Cursor.start 0 script).last.index)).shortForm style ++
            (if 0 < (Cursor.start 0 script).last.index then " " else "") ++ "[error]" := by
  simp only [ofScript_zero]
  refine ⟨fun a b tokens style tokenized => shortForm_ofBytes_append style tokenized b, ?_⟩
  intro script fault style malformed
  have stopped := tokenize_eq_error_iff.mp malformed
  rw [ofScript_zero] at stopped
  have stop : (Cursor.start 0 script).last.index = (ofBytes script).consumed :=
    congrArg Cursor.index (Cursor.last_start script)
  rw [stop]
  exact shortForm_ofBytes_of_fault stopped

/-- A push without data in front of one with data, and two opcodes in front of a push that is cut
short. -/
theorem shortForm_append_emptyPush :
    tokenize 0 [0x4c, 0x00] = .ok [⟨.pushData1, []⟩] ∧
      (ofScript 0 [0x4c, 0x00, 0x02, 0xab, 0xcd]).shortForm .compressed = "0 DATA_2 0xabcd" ∧
      (ofScript 0 [0x4c, 0x00, 0x02, 0xab, 0xcd]).shortForm .full =
        "PUSHDATA1 0x00 0x DATA_2 0xabcd" ∧
      tokenize 0 [0x76, 0xa9, 0x02, 0x01] = .error ⟨.data 2, .direct, 2, 1⟩ ∧
      (ofScript 0 [0x76, 0xa9, 0x02, 0x01]).shortForm .full = "DUP HASH160 [error]" := by
  have tokenized : tokenize 0 [0x4c, 0x00] = .ok [⟨.pushData1, []⟩] := by decide +kernel
  have malformed : tokenize 0 [0x76, 0xa9, 0x02, 0x01] = .error ⟨.data 2, .direct, 2, 1⟩ := by
    decide +kernel
  have compressed := shortForm_append.1 _ [0x02, 0xab, 0xcd] _ .compressed tokenized
  have full := shortForm_append.1 _ [0x02, 0xab, 0xcd] _ .full tokenized
  have broken := shortForm_append.2 _ _ .full malformed
  refine ⟨tokenized, compressed.trans ?_, full.trans ?_, malformed, broken.trans ?_⟩ <;>
    decide +kernel

end Reading

end LockingScript
