import LockingScript.Proofs.Script.Build
import LockingScript.Proofs.Text.Words
import LockingScript.Script.ShortForm

/-!
# Scripts from joined texts

A word adds the same bytes to any script. So two texts with a blank between them make the script of
the one followed by the script of the other, and they are refused only as one of them is or because
the two scripts together are over the limit. What stands between single quotes adds the push of its
UTF-8 form.
-/

namespace LockingScript

theorem unquoted?_eq_some_iff {word text : List Char} :
    unquoted? word = some text ↔ word = '\'' :: (text ++ ['\'']) := by
  constructor
  · intro quoted
    unfold unquoted? at quoted
    split at quoted
    · rename_i rest
      split at quoted
      · rename_i closed
        obtain ⟨inner, rfl⟩ := List.getLast?_eq_some_iff.mp closed
        rw [List.dropLast_concat] at quoted
        rw [Option.some.inj quoted]
      · cases quoted
    · cases quoted
  · rintro rfl
    simp [unquoted?]

/-- The UTF-8 form of a text is that of its characters one by one. -/
theorem Text.flatMap_utf8EncodeChar (t : String) :
    t.toList.flatMap String.utf8EncodeChar = t.toUTF8.data.toList := by
  have encoded : t.toList.utf8Encode = t.toByteArray := String.utf8Encode_toList
  rw [String.toUTF8_eq_toByteArray, ← encoded, List.utf8Encode, List.data_toByteArray]

namespace Step

/-- The bytes that a word adds. -/
def addedBy (word : List Char) : Except Error Bytes := ofWord word >>= encoding

theorem ofWord_quoted (t : String) :
    ofWord ("'" ++ t ++ "'").toList = .ok (.push t.toUTF8.data.toList) := by
  have word : ("'" ++ t ++ "'").toList = '\'' :: (t.toList ++ ['\'']) := by simp
  have quoted : unquoted? ('\'' :: (t.toList ++ ['\''])) = some t.toList :=
    unquoted?_eq_some_iff.mpr rfl
  have noNumber : Text.int64? ('\'' :: (t.toList ++ ['\''])) = none := rfl
  unfold ofWord
  rw [word, noNumber]
  simp [quoted, Text.flatMap_utf8EncodeChar]

theorem addedBy_quoted (t : String) :
    addedBy ("'" ++ t ++ "'").toList =
      if maxElementSize < t.utf8ByteSize then .error (.elementTooBig t.utf8ByteSize)
      else .ok (Token.ofData t.toUTF8.data.toList).bytes := by
  have length : t.toUTF8.data.toList.length = t.utf8ByteSize := Array.length_toList
  rw [addedBy, ofWord_quoted, ← length]
  rfl

end Step

namespace Script

theorem adds_applyWord : Adds applyWord Step.addedBy := by
  intro s word
  rw [applyWord, Step.addedBy, bind_assoc]
  exact bind_congr (adds_apply s)

section Joining

variable {a b : String} {s x y : Script} {cause : Error}

theorem ofShortForm_append_blank :
    ofShortForm (a ++ " " ++ b) =
      ofShortForm a >>= (Text.words b.toList).foldlM applyWord := by
  have blank : Text.isBlank ' ' = true := by decide
  have text : (a ++ " " ++ b).toList = a.toList ++ ' ' :: b.toList := by simp
  rw [ofShortForm, text, Text.words_append_blank blank, List.foldlM_append]
  rfl

theorem size_le_of_ofShortForm (built : ofShortForm a = .ok x) : x.size ≤ maxScriptSize := by
  obtain ⟨chunks, -, room, rfl⟩ := exists_appends adds_applyWord (Nat.zero_le _) built
  simpa [empty, size] using room

theorem ofShortForm_append_blank_of_error (refused : ofShortForm a = .error cause) :
    ofShortForm (a ++ " " ++ b) = .error cause := by
  rw [ofShortForm_append_blank, refused]
  rfl

theorem ofShortForm_append_blank_of_ok (first : ofShortForm a = .ok x)
    (second : ofShortForm b = .ok y) :
    if x.size + y.size ≤ maxScriptSize then
      ofShortForm (a ++ " " ++ b) = .ok ⟨x.bytes ++ y.bytes⟩
    else ∃ length, ofShortForm (a ++ " " ++ b) = .error (.scriptTooBig length) := by
  have room := size_le_of_ofShortForm first
  obtain ⟨chunks, appends, -, rfl⟩ := exists_appends adds_applyWord (Nat.zero_le _) second
  have size : (Script.mk (empty.bytes ++ chunks.flatten)).size = chunks.flatten.length := rfl
  rw [ofShortForm_append_blank, first, size]
  split
  · rename_i fits
    exact foldlM_of_fits appends x fits
  · rename_i tooBig
    exact foldlM_of_tooBig appends room (Nat.lt_of_not_le tooBig)

theorem ofShortForm_append_blank_of_later_error (first : ofShortForm a = .ok x)
    (refused : ofShortForm b = .error cause) :
    ofShortForm (a ++ " " ++ b) = .error cause ∨
      ∃ length, ofShortForm (a ++ " " ++ b) = .error (.scriptTooBig length) := by
  rw [ofShortForm_append_blank, first]
  exact foldlM_eq_error_of_le adds_applyWord (Nat.zero_le _) refused

/-- Texts with a blank between them are read just when both are and the limit leaves room. -/
theorem ofShortForm_append_blank_eq_ok_iff :
    ofShortForm (a ++ " " ++ b) = .ok s ↔
      ∃ x y, ofShortForm a = .ok x ∧ ofShortForm b = .ok y ∧
        x.size + y.size ≤ maxScriptSize ∧ s = ⟨x.bytes ++ y.bytes⟩ := by
  constructor
  · intro built
    cases first : ofShortForm a with
    | error cause =>
        rw [ofShortForm_append_blank_of_error first] at built
        cases built
    | ok x =>
        cases second : ofShortForm b with
        | error cause =>
            have refused := ofShortForm_append_blank_of_later_error first second
            rcases refused with same | ⟨length, tooBig⟩
            · rw [same] at built
              cases built
            · rw [tooBig] at built
              cases built
        | ok y =>
            have joined := ofShortForm_append_blank_of_ok first second
            split at joined
            · rename_i fits
              rw [joined] at built
              exact ⟨x, y, rfl, rfl, fits, (Except.ok.inj built).symm⟩
            · obtain ⟨length, tooBig⟩ := joined
              rw [tooBig] at built
              cases built
  · rintro ⟨x, y, first, second, fits, rfl⟩
    simpa only [if_pos fits] using ofShortForm_append_blank_of_ok first second

end Joining

section Quotes

variable {a b t : String} {s : Script}

theorem isWord_quoted (noBlank : ∀ c ∈ t.toList, Text.isBlank c = false) :
    Text.IsWord ("'" ++ t ++ "'").toList := by
  have word : ("'" ++ t ++ "'").toList = ['\''] ++ (t.toList ++ ['\'']) := by simp
  have quote : Text.IsWord ['\''] := by decide
  rw [word]
  exact Text.isWord_append quote (List.forall_mem_append.mpr ⟨noBlank, quote.2⟩)

theorem ofShortForm_quoted (noBlank : ∀ c ∈ t.toList, Text.isBlank c = false) :
    ofShortForm ("'" ++ t ++ "'") = empty.applyWord ("'" ++ t ++ "'").toList := by
  rw [ofShortForm, Text.words_of_isWord (isWord_quoted noBlank), List.foldlM_cons]
  exact bind_pure _

theorem applyWord_quoted (t : String) (s : Script) :
    s.applyWord ("'" ++ t ++ "'").toList =
      if maxElementSize < t.utf8ByteSize then .error (.elementTooBig t.utf8ByteSize)
      else s.append (Token.ofData t.toUTF8.data.toList).bytes := by
  rw [adds_applyWord, Step.addedBy_quoted]
  split <;> rfl

theorem ofShortForm_quoted_eq_ok_iff (noBlank : ∀ c ∈ t.toList, Text.isBlank c = false) :
    ofShortForm ("'" ++ t ++ "'") = .ok s ↔
      t.utf8ByteSize ≤ maxElementSize ∧
        (Token.ofData t.toUTF8.data.toList).bytes.length ≤ maxScriptSize ∧
          ⟨(Token.ofData t.toUTF8.data.toList).bytes⟩ = s := by
  rw [ofShortForm_quoted noBlank, applyWord_quoted]
  split
  · rename_i tooBig
    simp [Nat.not_le_of_lt tooBig]
  · rename_i allowed
    rw [append_eq_ok_iff]
    simp [empty, size, Nat.le_of_not_lt allowed]

/-- A quoted text is read among others just when they are and there is room for it, and it stands
for the push of its UTF-8 form then. -/
theorem ofShortForm_around_quoted_eq_ok_iff
    (noBlank : ∀ c ∈ t.toList, Text.isBlank c = false) :
    ofShortForm (a ++ " " ++ ("'" ++ t ++ "'") ++ " " ++ b) = .ok s ↔
      t.utf8ByteSize ≤ maxElementSize ∧ ∃ x y, ofShortForm a = .ok x ∧ ofShortForm b = .ok y ∧
        s.bytes = x.bytes ++ (Token.ofData t.toUTF8.data.toList).bytes ++ y.bytes ∧
          s.size ≤ maxScriptSize := by
  simp only [ofShortForm_append_blank_eq_ok_iff, ofShortForm_quoted_eq_ok_iff noBlank]
  constructor
  · rintro ⟨_, y, ⟨x, _, first, ⟨allowed, -, rfl⟩, -, rfl⟩, second, room, rfl⟩
    refine ⟨allowed, x, y, first, second, rfl, ?_⟩
    rwa [size, List.length_append]
  · rintro ⟨allowed, x, y, first, second, bytes, room⟩
    have total := congrArg List.length bytes
    rw [List.length_append, List.length_append] at total
    rw [size, total] at room
    refine ⟨_, y, ⟨x, _, first, ⟨allowed, ?_, rfl⟩, ?_, rfl⟩, second, ?_, ?_⟩
    · omega
    · simp only [size]
      omega
    · simp only [size, List.length_append]
      omega
    · cases s
      exact congrArg Script.mk bytes

end Quotes

/-- A text that is refused is refused with any text after it. After a text that is read the other
one decides: its script is appended if there is room, or its error is reported unless the limit
comes first. No script is over the limit, and a quoted text adds the push of its UTF-8 form. -/
theorem ofShortForm_joined :
    (∀ (a b : String) (cause : Error), ofShortForm a = .error cause →
      ofShortForm (a ++ " " ++ b) = .error cause) ∧
    (∀ (a b : String) (x y : Script), ofShortForm a = .ok x → ofShortForm b = .ok y →
      if x.size + y.size ≤ 16384 then ofShortForm (a ++ " " ++ b) = .ok ⟨x.bytes ++ y.bytes⟩
      else ∃ length, ofShortForm (a ++ " " ++ b) = .error (.scriptTooBig length)) ∧
    (∀ (a b : String) (x : Script) (cause : Error),
      ofShortForm a = .ok x → ofShortForm b = .error cause →
        ofShortForm (a ++ " " ++ b) = .error cause ∨
          ∃ length, ofShortForm (a ++ " " ++ b) = .error (.scriptTooBig length)) ∧
    (∀ (a : String) (x : Script), ofShortForm a = .ok x → x.size ≤ 16384) ∧
    ∀ t : String, (∀ c ∈ t.toList, Text.isBlank c = false) →
      (∀ s : Script, s.applyWord ("'" ++ t ++ "'").toList =
        if 2048 < t.utf8ByteSize then .error (.elementTooBig t.utf8ByteSize)
        else s.append (Token.ofData t.toUTF8.data.toList).bytes) ∧
      ∀ (a b : String) (s : Script),
        ofShortForm (a ++ " " ++ ("'" ++ t ++ "'") ++ " " ++ b) = .ok s ↔
          t.utf8ByteSize ≤ 2048 ∧ ∃ x y, ofShortForm a = .ok x ∧ ofShortForm b = .ok y ∧
            s.bytes = x.bytes ++ (Token.ofData t.toUTF8.data.toList).bytes ++ y.bytes ∧
              s.size ≤ 16384 := by
  refine ⟨fun a b cause => ofShortForm_append_blank_of_error,
    fun a b x y => ofShortForm_append_blank_of_ok,
    fun a b x cause => ofShortForm_append_blank_of_later_error,
    fun a x => size_le_of_ofShortForm, ?_⟩
  intro t noBlank
  exact ⟨applyWord_quoted t, fun a b s => ofShortForm_around_quoted_eq_ok_iff noBlank⟩

/-- A name and a quoted text, one after the other, and each of them with a word that is none. -/
theorem ofShortForm_joined_dup :
    ofShortForm "DUP" = .ok ⟨[0x76]⟩ ∧ ofShortForm "'é'" = .ok ⟨[0x02, 0xc3, 0xa9]⟩ ∧
      ofShortForm ("DUP" ++ " " ++ "'é'") = .ok ⟨[0x76, 0x02, 0xc3, 0xa9]⟩ ∧
      ofShortForm "BOGUS" = .error (.badWord "BOGUS") ∧
      ofShortForm ("BOGUS" ++ " " ++ "'é'") = .error (.badWord "BOGUS") ∧
      (ofShortForm ("DUP" ++ " " ++ "BOGUS") = .error (.badWord "BOGUS") ∨
        ∃ length, ofShortForm ("DUP" ++ " " ++ "BOGUS") = .error (.scriptTooBig length)) ∧
      ofShortForm ("DUP" ++ " " ++ ("'" ++ "é" ++ "'") ++ " " ++ "DUP") =
        .ok ⟨[0x76, 0x02, 0xc3, 0xa9, 0x76]⟩ := by
  obtain ⟨refused, accepted, refusedLater, -, quoted⟩ := ofShortForm_joined
  have dup : ofShortForm "DUP" = .ok ⟨[0x76]⟩ := by decide +kernel
  have text : ofShortForm "'é'" = .ok ⟨[0x02, 0xc3, 0xa9]⟩ := by decide +kernel
  have bogus : ofShortForm "BOGUS" = .error (.badWord "BOGUS") := by decide +kernel
  have noBlank : Text.IsWord "é".toList := by decide +kernel
  have between := (quoted "é" noBlank.2).2 "DUP" "DUP" ⟨[0x76, 0x02, 0xc3, 0xa9, 0x76]⟩
  exact ⟨dup, text, accepted _ _ _ _ dup text, bogus, refused _ _ _ bogus,
    refusedLater _ _ _ _ dup bogus,
    between.mpr ⟨by decide +kernel, _, _, dup, dup, by decide +kernel⟩⟩

end Script

end LockingScript
