import LockingScript.Text.Words

/-!
# Words with a blank between them

Words that are written with one blank between any two of them are found again by splitting the
text at its blanks.
-/

namespace LockingScript.Text

def IsWord (word : List Char) : Prop := word ≠ [] ∧ ∀ c ∈ word, isBlank c = false

-- Characters can be enumerated as well, so the quantifier is not left to instance search.
instance (word : List Char) : Decidable (IsWord word) :=
  decidable_of_iff (word ≠ [] ∧ word.all (! isBlank ·)) (by simp [IsWord])

theorem words_of_isWord {word : List Char} (isWord : IsWord word) : words word = [word] :=
  words_of_forall_not_blank isWord.2 isWord.1

theorem isWord_append {front back : List Char} (isWord : IsWord front)
    (noBlank : ∀ c ∈ back, isBlank c = false) : IsWord (front ++ back) := by
  refine ⟨List.append_ne_nil_of_left_ne_nil isWord.1 back, ?_⟩
  intro c membership
  rcases List.mem_append.mp membership with inFront | inBack
  · exact isWord.2 c inFront
  · exact noBlank c inBack

theorem words_intercalate {list : List (List Char)} (isWord : ∀ word ∈ list, IsWord word) :
    words ([' '].intercalate list) = list := by
  induction list with
  | nil => rw [List.intercalate_nil, words_nil]
  | cons word rest ih =>
      have first := words_of_isWord (isWord word List.mem_cons_self)
      have later := ih fun other membership => isWord other (List.mem_cons_of_mem word membership)
      cases rest with
      | nil => rw [List.intercalate_singleton, first]
      | cons next rest =>
          have blank : isBlank ' ' = true := by decide
          rw [List.intercalate_cons_cons, List.append_assoc, List.singleton_append,
            words_append_blank blank, first, later]
          rfl

theorem words_intercalate_toList {list : List String}
    (isWord : ∀ word ∈ list, IsWord word.toList) :
    words (" ".intercalate list).toList = list.map String.toList := by
  rw [String.toList_intercalate]
  apply words_intercalate
  intro word membership
  obtain ⟨text, inList, rfl⟩ := List.mem_map.mp membership
  exact isWord text inList

/-- Whether a text has neither blanks nor closing brackets. Names, numbers and digits are such
texts. -/
def IsBare (text : List Char) : Prop := ∀ c ∈ text, isBlank c = false ∧ c ≠ ']'

instance (text : List Char) : Decidable (IsBare text) :=
  decidable_of_iff (text.all fun c => ! isBlank c && c != ']') (by simp [IsBare])

theorem isBare_append {front back : List Char} (bareFront : IsBare front)
    (bareBack : IsBare back) : IsBare (front ++ back) :=
  List.forall_mem_append.mpr ⟨bareFront, bareBack⟩

/-- A bare text that is a word. -/
def IsBareWord (word : List Char) : Prop := word ≠ [] ∧ IsBare word

instance (word : List Char) : Decidable (IsBareWord word) := inferInstanceAs (Decidable (_ ∧ _))

theorem IsBareWord.isWord {word : List Char} (bare : IsBareWord word) : IsWord word :=
  ⟨bare.1, fun c membership => (bare.2 c membership).1⟩

theorem isBareWord_append {front back : List Char} (bareFront : IsBareWord front)
    (bareBack : IsBare back) : IsBareWord (front ++ back) :=
  ⟨List.append_ne_nil_of_left_ne_nil bareFront.1 back, isBare_append bareFront.2 bareBack⟩

theorem IsBare.bracket_not_mem {text : List Char} (bare : IsBare text) : ']' ∉ text :=
  fun membership => (bare _ membership).2 rfl

theorem IsBare.blank_not_mem {text : List Char} (bare : IsBare text) {c : Char}
    (blank : isBlank c = true) : c ∉ text := by
  intro membership
  rw [(bare c membership).1] at blank
  cases blank

theorem isBare_toString (n : Nat) : IsBare (toString n).toList := by
  rw [Nat.toString_eq_repr, Nat.toList_repr]
  intro c membership
  have digit := Nat.isDigit_of_mem_toDigits (by decide) (by decide) membership
  obtain ⟨low, high⟩ := Char.isDigit_iff_toNat.mp digit
  constructor
  · simp only [isBlank, blankRanges, List.any_cons, List.any_nil, Bool.or_false,
      Bool.or_eq_false_iff, Bool.and_eq_false_iff, decide_eq_false_iff_not]
    simp only [Char.reduceToNat] at low high
    omega
  · rintro rfl
    exact absurd digit (by decide)

theorem isBareWord_toString (n : Nat) : IsBareWord (toString n).toList := by
  refine ⟨?_, isBare_toString n⟩
  rw [Nat.toString_eq_repr, Nat.toList_repr]
  exact Nat.toDigits_ne_nil

/-- A text of words holds the characters of the words and the blanks between them. -/
theorem mem_intercalate_blank {c : Char} {list : List (List Char)}
    (membership : c ∈ [' '].intercalate list) : c = ' ' ∨ ∃ word ∈ list, c ∈ word := by
  induction list with
  | nil => simp at membership
  | cons word rest ih =>
      cases rest with
      | nil =>
          rw [List.intercalate_singleton] at membership
          exact .inr ⟨word, List.mem_cons_self, membership⟩
      | cons next rest =>
          rw [List.intercalate_cons_cons, List.mem_append, List.mem_append] at membership
          rcases membership with (inWord | blank) | later
          · exact .inr ⟨word, List.mem_cons_self, inWord⟩
          · exact .inl (List.mem_singleton.mp blank)
          · rcases ih later with blank | ⟨other, listed, inOther⟩
            · exact .inl blank
            · exact .inr ⟨other, List.mem_cons_of_mem word listed, inOther⟩

theorem suffix_intercalate_concat (list : List (List Char)) (last : List Char) :
    last <:+ [' '].intercalate (list ++ [last]) := by
  induction list with
  | nil =>
      refine ⟨[], ?_⟩
      rw [List.nil_append, List.nil_append, List.intercalate_singleton]
  | cons word rest ih =>
      have nonempty : rest ++ [last] ≠ [] := by simp
      obtain ⟨next, others, split⟩ := List.exists_cons_of_ne_nil nonempty
      rw [List.cons_append, split, List.intercalate_cons_cons, ← split]
      exact ih.trans (List.suffix_append _ _)

end LockingScript.Text
