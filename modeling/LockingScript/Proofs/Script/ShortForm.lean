import LockingScript.Proofs.Bytes.Hex
import LockingScript.Proofs.Opcode.Name
import LockingScript.Proofs.Script.Build
import LockingScript.Proofs.Token.Cursor
import LockingScript.Proofs.Token.Rendering
import LockingScript.Script.ShortForm

/-!
# The short form is read back

In the full style each word of a token adds a part of the token's bytes, and the words together
add all of them. A script that was shown in words is therefore built again as it was, as long as
it is not over the limit, and up to the mark that stands for what could not be read.
-/

namespace LockingScript

/-- The word adds the bytes to any script. -/
def Step.Spells (word : List Char) (added : Bytes) : Prop :=
  Text.IsWord word ∧ ∃ step, Step.ofWord word = .ok step ∧ step.encoding = .ok added

namespace Step

theorem ofWord_of_isPlainName {word : List Char} {op : Opcode} (plain : Opcode.IsPlainName word)
    (noNumber : Text.int64? word = none) (named : Opcode.ofName? (String.ofList word) = some op) :
    ofWord word = .ok (.opcode op) := by
  obtain ⟨-, -, noHex, noQuote⟩ := plain
  have unquoted : unquoted? word = none := by
    unfold unquoted?
    split
    · exact absurd rfl noQuote
    · rfl
  unfold ofWord
  split
  · rename_i number
    rw [noNumber] at number
    cases number
  · exact absurd ⟨_, rfl⟩ noHex
  · rw [unquoted, named]

theorem spells_shortName {op : Opcode} (noConstant : op.constant? = none) :
    Spells op.shortName.toList [op.byte] := by
  have plain := op.isPlainName_shortName
  have named : Opcode.ofName? (String.ofList op.shortName.toList) = some op := by
    rw [String.ofList_toList, Opcode.ofName?_shortName]
  exact ⟨plain.1, .opcode op,
    ofWord_of_isPlainName plain (Opcode.int64?_shortName noConstant) named, rfl⟩

theorem spells_constant {op : Opcode} {n : Int} (constant : op.constant? = some n) :
    Spells (toString n).toList [op.byte] := by
  have every : ∀ k < 256, ∀ n ∈ (Opcode.mk (UInt8.ofNat k)).constant?,
      Text.IsWord (toString n).toList ∧
        Text.int64? (toString n).toList = some (Int64.ofInt n) ∧
        (Token.ofInt (Int64.ofInt n)).bytes = [UInt8.ofNat k] := by
    simp only [Option.mem_def]
    decide +kernel
  obtain ⟨isWord, number, written⟩ := Opcode.forall_of_bytes
    (P := fun op => ∀ n ∈ op.constant?, Text.IsWord (toString n).toList ∧
      Text.int64? (toString n).toList = some (Int64.ofInt n) ∧
        (Token.ofInt (Int64.ofInt n)).bytes = [op.byte]) every op n constant
  refine ⟨isWord, .int (Int64.ofInt n), ?_, by rw [encoding, written]⟩
  unfold ofWord
  rw [number]

theorem spells_hex (b : Bytes) : Spells ('0' :: 'x' :: Hex.write b) b := by
  refine ⟨?_, .raw b, ?_, rfl⟩
  · have mark : Text.IsWord ['0', 'x'] := by decide
    exact Text.isWord_append mark fun c membership => (Hex.isBare_write b c membership).1
  · have noNumber : Text.int64? ('0' :: 'x' :: Hex.write b) = none := rfl
    unfold ofWord
    rw [noNumber]
    simp

end Step

namespace Token

theorem spells_dataWord (t : Token) : Step.Spells t.dataWord.toList t.data := by
  have word : t.dataWord.toList = '0' :: 'x' :: Hex.write t.data := by
    simp [dataWord]
  rw [word]
  exact Step.spells_hex t.data

theorem spells_lengthWords {t : Token} (wellFormed : t.WellFormed) :
    ∃ chunks, List.Forall₂ Step.Spells (t.lengthWords.map String.toList) chunks ∧
      chunks.flatten = LittleEndian.encode t.opcode.prefixWidth t.data.length := by
  cases rule : t.opcode.lengthRule with
  | fixed size =>
      refine ⟨[], by simp [lengthWords, rule], ?_⟩
      simp [Opcode.prefixWidth, rule, LittleEndian.encode]
  | prefixed width =>
      have word : t.lengthWords.map String.toList =
          ['0' :: 'x' :: Hex.write (LittleEndian.encode width t.data.length)] := by
        unfold lengthWords
        rw [rule]
        split
        · rename_i none
          cases none
        · rename_i one
          cases one
          have small : t.data.length < 256 := by simpa [WellFormed, rule] using wellFormed
          simp [hexNumber_eq small]
        · rename_i wide
          cases wide
          simp
      refine ⟨[LittleEndian.encode width t.data.length], ?_, ?_⟩
      · rw [word]
        exact .cons (Step.spells_hex _) .nil
      · simp [Opcode.prefixWidth, rule]

/-- The words of a token in the full style add its bytes, each a part of them. -/
theorem spells_words {t : Token} (wellFormed : t.WellFormed) :
    ∃ chunks, List.Forall₂ Step.Spells ((t.words .full).map String.toList) chunks ∧
      chunks.flatten = t.bytes := by
  unfold words
  cases constant : t.opcode.constant? with
  | some n =>
      have written := bytes_of_fixed_zero wellFormed (Opcode.lengthRule_of_constant? constant)
      exact ⟨[[t.opcode.byte]], .cons (Step.spells_constant constant) .nil, by simp [written]⟩
  | none =>
      have named := Step.spells_shortName constant
      by_cases push : t.opcode.IsPush
      · obtain ⟨lengths, spelled, flat⟩ := spells_lengthWords wellFormed
        refine ⟨[t.opcode.byte] :: (lengths ++ [t.data]), ?_, ?_⟩
        · simp only [if_pos push, pushWords, List.cons_append, List.map_cons, List.map_append]
          exact .cons named (List.rel_append spelled (.cons t.spells_dataWord .nil))
        · simp [flat, bytes]
      · have written := bytes_of_fixed_zero wellFormed (Opcode.lengthRule_of_not_isPush push)
        simp only [if_neg push]
        exact ⟨[[t.opcode.byte]], .cons named .nil, by simp [written]⟩

theorem spells_flatMap_words {tokens : List Token} (wellFormed : ∀ t ∈ tokens, t.WellFormed) :
    ∃ chunks,
      List.Forall₂ Step.Spells ((tokens.flatMap (words .full)).map String.toList) chunks ∧
        chunks.flatten = tokens.flatMap bytes := by
  induction tokens with
  | nil => exact ⟨[], .nil, rfl⟩
  | cons t tokens ih =>
      obtain ⟨front, frontSpelled, frontFlat⟩ := spells_words (wellFormed t List.mem_cons_self)
      obtain ⟨back, backSpelled, backFlat⟩ :=
        ih fun u membership => wellFormed u (List.mem_cons_of_mem t membership)
      refine ⟨front ++ back, ?_, ?_⟩
      · rw [List.flatMap_cons, List.map_append]
        exact List.rel_append frontSpelled backSpelled
      · rw [List.flatten_append, frontFlat, backFlat, List.flatMap_cons]

end Token

namespace Script

theorem applyWord_of_spells {word : List Char} {added : Bytes} (spells : Step.Spells word added)
    (s : Script) : s.applyWord word = s.append added := by
  obtain ⟨-, step, read, encoded⟩ := spells
  rw [applyWord, read]
  exact apply_of_encoding encoded s

theorem appends_of_spells {words : List (List Char)} {chunks : List Bytes}
    (spells : List.Forall₂ Step.Spells words chunks) : Appends applyWord words chunks :=
  spells.imp fun _ _ => applyWord_of_spells

theorem applyWord_errorMark (s : Script) :
    s.applyWord Reading.errorMark.toList = .error (.badWord Reading.errorMark) := by
  have refused : Step.ofWord Reading.errorMark.toList = .error (.badWord Reading.errorMark) := by
    decide +kernel
  rw [applyWord, refused]
  rfl

end Script

namespace Reading

theorem spells_words (script : Bytes) :
    ∃ chunks,
      List.Forall₂ Step.Spells
          (((ofBytes script).tokens.flatMap (Token.words .full)).map String.toList) chunks ∧
        chunks.flatten = (ofBytes script).tokens.flatMap Token.bytes ∧
        chunks.flatten.length = (ofBytes script).consumed := by
  have wellFormed : ∀ t ∈ (ofBytes script).tokens, t.WellFormed :=
    fun _ membership => wellFormed_of_mem_tokens membership
  obtain ⟨chunks, spelled, flat⟩ := Token.spells_flatMap_words wellFormed
  exact ⟨chunks, spelled, flat, by rw [flat, length_flatMap_bytes]⟩

end Reading

namespace Script

theorem ofShortForm_shortForm_of_tooBig {script : Bytes}
    (tooBig : maxScriptSize < (Reading.ofBytes script).consumed) :
    ∃ length, ofShortForm (Script.mk script).shortForm = .error (.scriptTooBig length) := by
  have wellFormed : ∀ t ∈ (Reading.ofBytes script).tokens, t.WellFormed :=
    fun _ => Reading.wellFormed_of_mem_tokens
  obtain ⟨chunks, spelled, flat, total⟩ := Reading.spells_words script
  obtain ⟨length, refused⟩ := foldlM_of_tooBig (appends_of_spells spelled) (s := empty)
    (Nat.zero_le _) (by simpa [empty, size, total] using tooBig)
  refine ⟨length, ?_⟩
  rw [ofShortForm, shortForm, reading, Reading.words_shortForm _ wellFormed, List.map_append,
    List.foldlM_append, refused]
  rfl

/-- The words of the tokens make the bytes that were read, and the mark is no word of a script. -/
theorem ofShortForm_shortForm_of_fits {script : Bytes}
    (fits : (Reading.ofBytes script).consumed ≤ maxScriptSize) :
    ofShortForm (Script.mk script).shortForm =
      match (Reading.ofBytes script).fault with
      | some _ => .error (.badWord Reading.errorMark)
      | none => .ok ⟨script⟩ := by
  have wellFormed : ∀ t ∈ (Reading.ofBytes script).tokens, t.WellFormed :=
    fun _ => Reading.wellFormed_of_mem_tokens
  obtain ⟨chunks, spelled, flat, total⟩ := Reading.spells_words script
  have built := foldlM_of_fits (appends_of_spells spelled) empty
    (by simpa [empty, size, total] using fits)
  rw [ofShortForm, shortForm, reading, Reading.words_shortForm _ wellFormed, List.map_append,
    List.foldlM_append, built]
  cases fault : (Reading.ofBytes script).fault with
  | some cut =>
      have refused := applyWord_errorMark ⟨empty.bytes ++ chunks.flatten⟩
      simp only [Reading.errorWords, fault, List.map_cons, List.map_nil, List.foldlM_cons]
      simp only [bind, Except.bind, refused]
  | none =>
      have whole := Reading.bytes_tokens_append_rest script
      rw [(Reading.fault_eq_none_iff script).mp fault, List.append_nil, ← flat] at whole
      simp only [Reading.errorWords, fault, List.map_nil, List.foldlM_nil, whole]
      rfl

/-- A script that was shown in words and is not over the limit up to where it can be read is built
again from them, byte for byte, or refused at the mark for what could not be read. -/
theorem ofShortForm_shortForm (script : Bytes) :
    if 16384 < (Cursor.start 0 script).last.index then
      ∃ length, ofShortForm (Script.mk script).shortForm = .error (.scriptTooBig length)
    else
      ofShortForm (Script.mk script).shortForm =
        match tokenize 0 script with
        | .ok _ => .ok ⟨script⟩
        | .error _ => .error (.badWord "[error]") := by
  have stop : (Cursor.start 0 script).last.index = (Reading.ofBytes script).consumed :=
    congrArg Cursor.index (Cursor.last_start script)
  rw [stop]
  split
  · rename_i tooBig
    exact ofShortForm_shortForm_of_tooBig tooBig
  · rename_i fits
    rw [ofShortForm_shortForm_of_fits (Nat.le_of_not_lt fits)]
    have tokens : tokenize 0 script =
        match (Reading.ofBytes script).fault with
        | some fault => .error fault
        | none => .ok (Reading.ofBytes script).tokens := rfl
    rw [tokens]
    cases (Reading.ofBytes script).fault <;> rfl

end Script

end LockingScript
