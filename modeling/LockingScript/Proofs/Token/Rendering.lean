import LockingScript.Proofs.Bytes.Hex
import LockingScript.Proofs.Opcode.Name
import LockingScript.Proofs.Token.Reading
import LockingScript.Token.Rendering

/-!
# Where the error mark stands

The words and units of tokens are names, numbers and digits. None of them holds a closing bracket,
so a text of tokens ends in the error mark exactly when reading stopped at a malformed push. Nor
does any of them hold a blank, so a text of tokens takes one line.
-/

namespace LockingScript

namespace Token

theorem hexNumber_eq {n : Nat} (small : n < 256) :
    (hexNumber n).toList = Hex.write (LittleEndian.encode 1 n) := by
  have every : ∀ n < 256, (if n < 16 then ['0'] else []) ++ Nat.toDigits 16 n =
      Hex.write (LittleEndian.encode 1 n) := by decide +kernel
  rw [← every n small, hexNumber, String.toList_append, String.toList_ofList]
  split <;> rfl

theorem isBareWord_hexWord (b : Bytes) : Text.IsBareWord ("0x" ++ Hex.encode b).toList := by
  rw [String.toList_append, Hex.toList_encode]
  exact Text.isBareWord_append (by decide) (Hex.isBare_write b)

variable {t : Token} {style : PushStyle} {word : String}

theorem isBareWord_of_mem_lengthWords (wellFormed : t.WellFormed) (listed : word ∈ t.lengthWords) :
    Text.IsBareWord word.toList := by
  unfold lengthWords at listed
  split at listed
  · cases listed
  · rename_i rule
    have small : t.data.length < 256 := by simpa [WellFormed, rule] using wellFormed
    rw [List.mem_singleton.mp listed, String.toList_append, hexNumber_eq small]
    exact Text.isBareWord_append (by decide) (Hex.isBare_write _)
  · rw [List.mem_singleton.mp listed]
    exact isBareWord_hexWord _

theorem isBareWord_dataName (n : Nat) : Text.IsBareWord ("DATA_" ++ toString n).toList := by
  rw [String.toList_append]
  exact Text.isBareWord_append (by decide) (Text.isBare_toString n)

theorem isBareWord_of_mem_pushWords (wellFormed : t.WellFormed)
    (listed : word ∈ t.pushWords style) : Text.IsBareWord word.toList := by
  cases style with
  | full =>
      simp only [pushWords, List.cons_append, List.mem_cons, List.mem_append, List.not_mem_nil,
        or_false] at listed
      rcases listed with rfl | ofLength | rfl
      · exact t.opcode.isBareWord_shortName
      · exact isBareWord_of_mem_lengthWords wellFormed ofLength
      · exact isBareWord_hexWord t.data
  | compressed =>
      simp only [pushWords] at listed
      split at listed
      · rw [List.mem_singleton.mp listed]
        decide
      · split at listed
        · simp only [List.mem_cons, List.not_mem_nil, or_false] at listed
          rcases listed with rfl | rfl
          · exact isBareWord_dataName _
          · exact isBareWord_hexWord t.data
        · simp only [List.mem_cons, List.not_mem_nil, or_false] at listed
          rcases listed with rfl | rfl
          · exact t.opcode.isBareWord_shortName
          · exact isBareWord_hexWord t.data

theorem isBareWord_of_mem_words (wellFormed : t.WellFormed) (listed : word ∈ t.words style) :
    Text.IsBareWord word.toList := by
  unfold words at listed
  split at listed
  · rename_i constant
    rw [List.mem_singleton.mp listed]
    exact Opcode.isBareWord_constant? constant
  · split at listed
    · exact isBareWord_of_mem_pushWords wellFormed listed
    · rw [List.mem_singleton.mp listed]
      exact t.opcode.isBareWord_shortName

theorem pushWords_ne_nil (style : PushStyle) (t : Token) : t.pushWords style ≠ [] := by
  cases style with
  | full => exact List.cons_ne_nil _ _
  | compressed =>
      simp only [pushWords]
      split
      · exact List.cons_ne_nil _ _
      · split <;> exact List.cons_ne_nil _ _

/-- In either style every token has words to show. -/
theorem words_ne_nil (style : PushStyle) (t : Token) : t.words style ≠ [] := by
  unfold words
  split
  · exact List.cons_ne_nil _ _
  · split
    · exact pushWords_ne_nil style t
    · exact List.cons_ne_nil _ _

theorem isBare_unit (t : Token) : Text.IsBare t.unit.toList := by
  unfold unit
  split
  · rename_i constant
    exact (Opcode.isBareWord_constant? constant).2
  · split
    · rw [Hex.toList_encode]
      exact Hex.isBare_write t.data
    · exact t.opcode.isBare_name

end Token

namespace Reading

theorem errorWords_of_fault {r : Reading} {fault : MalformedPush} (stopped : r.fault = some fault) :
    r.errorWords = [errorMark] := by
  rw [errorWords, stopped]

theorem errorWords_of_whole {r : Reading} (whole : r.fault = none) : r.errorWords = [] := by
  rw [errorWords, whole]

theorem errorWords_eq_nil_iff {r : Reading} : r.errorWords = [] ↔ r.fault = none := by
  cases fault : r.fault with
  | none => exact iff_of_true (errorWords_of_whole fault) rfl
  | some cut => simp [errorWords_of_fault fault]

/-- Only the empty script has nothing to show, neither a token nor a fault. -/
theorem nothing_to_show_iff (script : Bytes) :
    (ofBytes script).tokens = [] ∧ (ofBytes script).errorWords = [] ↔ script = [] := by
  rw [errorWords_eq_nil_iff, fault_eq_none_iff]
  constructor
  · rintro ⟨noTokens, noRest⟩
    have whole := bytes_tokens_append_rest script
    rw [noTokens, noRest] at whole
    exact whole.symm
  · rintro rfl
    rw [ofBytes_nil]
    exact ⟨rfl, rfl⟩

theorem eq_errorMark_of_mem {r : Reading} {word : String} (listed : word ∈ r.errorWords) :
    word = errorMark := by
  unfold errorWords at listed
  split at listed
  · exact List.mem_singleton.mp listed
  · cases listed

theorem forall_mem_append_errorWords {P : String → Prop} {list : List String} {r : Reading}
    (words : ∀ word ∈ list, P word) (mark : P errorMark) :
    ∀ word ∈ list ++ r.errorWords, P word := by
  intro word listed
  rcases List.mem_append.mp listed with inList | ofFault
  · exact words word inList
  · rwa [eq_errorMark_of_mem ofFault]

section Words

variable {list : List String} {r : Reading}

/-- A text of bare words ends in the error mark only if the mark was appended to it. -/
theorem errorMark_suffix_iff (bare : ∀ word ∈ list, Text.IsBare word.toList) :
    errorMark.toList <:+ (" ".intercalate (list ++ r.errorWords)).toList ↔
      ∃ fault, r.fault = some fault := by
  rw [String.toList_intercalate, List.map_append]
  cases outcome : r.fault with
  | some fault =>
      rw [errorWords_of_fault outcome]
      refine iff_of_true ?_ ⟨fault, rfl⟩
      exact Text.suffix_intercalate_concat _ _
  | none =>
      rw [errorWords_of_whole outcome, List.map_nil, List.append_nil]
      refine iff_of_false ?_ (by simp)
      intro ends
      have bracket : ']' ∈ errorMark.toList := by decide
      rcases Text.mem_intercalate_blank (ends.mem bracket) with blank | ⟨chars, listed, inWord⟩
      · exact absurd blank (by decide)
      · obtain ⟨word, inList, rfl⟩ := List.mem_map.mp listed
        exact (bare word inList).bracket_not_mem inWord

theorem newline_not_mem_errorWords {word : String} (listed : word ∈ r.errorWords) :
    '\n' ∉ word.toList := by
  rw [eq_errorMark_of_mem listed]
  decide

/-- A text of bare words takes one line, with the error mark or without it. -/
theorem newline_not_mem_intercalate (bare : ∀ word ∈ list, Text.IsBare word.toList) :
    '\n' ∉ (" ".intercalate (list ++ r.errorWords)).toList := by
  rw [String.toList_intercalate]
  intro membership
  rcases Text.mem_intercalate_blank membership with blank | ⟨chars, listed, inWord⟩
  · exact absurd blank (by decide)
  · obtain ⟨word, inList, rfl⟩ := List.mem_map.mp listed
    rcases List.mem_append.mp inList with ofToken | ofFault
    · exact (bare word ofToken).blank_not_mem (by decide) inWord
    · exact newline_not_mem_errorWords ofFault inWord

end Words

variable {r : Reading}

theorem isBare_of_mem_flatMap_words {style : PushStyle}
    (wellFormed : ∀ t ∈ r.tokens, t.WellFormed) :
    ∀ word ∈ r.tokens.flatMap (Token.words style), Text.IsBare word.toList := by
  intro word listed
  obtain ⟨t, membership, ofToken⟩ := List.mem_flatMap.mp listed
  exact (Token.isBareWord_of_mem_words (wellFormed t membership) ofToken).2

theorem isWord_of_mem_words {style : PushStyle} (wellFormed : ∀ t ∈ r.tokens, t.WellFormed) :
    ∀ word ∈ r.tokens.flatMap (Token.words style) ++ r.errorWords, Text.IsWord word.toList := by
  refine forall_mem_append_errorWords ?_ (by decide)
  intro word listed
  obtain ⟨t, membership, ofToken⟩ := List.mem_flatMap.mp listed
  exact (Token.isBareWord_of_mem_words (wellFormed t membership) ofToken).isWord

/-- The words that were printed are the words of the text. -/
theorem words_shortForm (style : PushStyle) (wellFormed : ∀ t ∈ r.tokens, t.WellFormed) :
    Text.words (r.shortForm style).toList =
      (r.tokens.flatMap (Token.words style) ++ r.errorWords).map String.toList :=
  Text.words_intercalate_toList (isWord_of_mem_words wellFormed)

theorem isBare_of_mem_dropWhile_units :
    ∀ word ∈ (r.tokens.map Token.unit).dropWhile String.isEmpty, Text.IsBare word.toList := by
  intro word listed
  obtain ⟨t, -, rfl⟩ := List.mem_map.mp ((List.dropWhile_suffix _).mem listed)
  exact t.isBare_unit

theorem errorMark_suffix_shortForm_iff (style : PushStyle)
    (wellFormed : ∀ t ∈ r.tokens, t.WellFormed) :
    errorMark.toList <:+ (r.shortForm style).toList ↔ ∃ fault, r.fault = some fault :=
  errorMark_suffix_iff (isBare_of_mem_flatMap_words wellFormed)

theorem newline_not_mem_shortForm (style : PushStyle)
    (wellFormed : ∀ t ∈ r.tokens, t.WellFormed) : '\n' ∉ (r.shortForm style).toList :=
  newline_not_mem_intercalate (isBare_of_mem_flatMap_words wellFormed)

/-- The mark is not empty, so leading empty units are dropped in front of it. -/
theorem oneLine_eq (r : Reading) :
    r.oneLine =
      " ".intercalate ((r.tokens.map Token.unit).dropWhile String.isEmpty ++ r.errorWords) := by
  have kept : r.errorWords.dropWhile String.isEmpty = r.errorWords := by
    unfold errorWords
    split <;> rfl
  rw [oneLine, List.dropWhile_append]
  split
  · rename_i allEmpty
    rw [List.isEmpty_iff.mp allEmpty, kept, List.nil_append]
  · rfl

theorem errorMark_suffix_oneLine_iff :
    errorMark.toList <:+ r.oneLine.toList ↔ ∃ fault, r.fault = some fault := by
  rw [oneLine_eq]
  exact errorMark_suffix_iff isBare_of_mem_dropWhile_units

theorem newline_not_mem_oneLine (r : Reading) : '\n' ∉ r.oneLine.toList := by
  rw [oneLine_eq]
  exact newline_not_mem_intercalate isBare_of_mem_dropWhile_units

end Reading

end LockingScript
