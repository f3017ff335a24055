import LockingScript.Proofs.Script.ShortForm
import LockingScript.Proofs.Token.Concatenation
import LockingScript.Proofs.Token.Shape
import Mathlib.Algebra.Order.BigOperators.Group.List
import Mathlib.Algebra.Order.Group.Nat

/-!
# Compressed words

The compressed style leaves out the length prefixes of pushes. As long as all data is short enough
for a direct push, its words make another script: one that pushes the same data, but with the
lengths in the opcodes.
-/

namespace LockingScript

namespace Token

/-- The token with the length of its data in the opcode and not in a prefix. -/
def withoutPrefix (t : Token) : Token :=
  if t.opcode.IsCounted then
    if t.data = [] then ⟨.zero, []⟩ else ⟨.data t.data.length, t.data⟩
  else t

theorem withoutPrefix_of_counted {t : Token} (counted : t.opcode.IsCounted) :
    t.withoutPrefix = ⟨.data t.data.length, t.data⟩ := by
  rw [withoutPrefix, if_pos counted]
  split
  · rename_i empty
    rw [empty]
    rfl
  · rfl

theorem withoutPrefix_of_not_counted {t : Token} (uncounted : ¬ t.opcode.IsCounted) :
    t.withoutPrefix = t := if_neg uncounted

section Words

variable {t : Token}

theorem words_compressed_of_not_counted (wellFormed : t.WellFormed)
    (uncounted : ¬ t.opcode.IsCounted) : t.words .compressed = t.words .full := by
  cases shape wellFormed with
  | constant number => rw [words_constant number, words_constant number]
  | direct holds short => rw [words_direct holds short, words_direct holds short]
  | counted isCounted => exact absurd isCounted uncounted
  | plain noConstant noPush =>
      rw [words_plain noConstant noPush, words_plain noConstant noPush]

/-- Leaving out the prefix saves a word. -/
theorem length_words_compressed_lt (counted : t.opcode.IsCounted) :
    (t.words .compressed).length < (t.words .full).length := by
  have two : (t.pushWords .compressed).length ≤ 2 := by
    simp only [pushWords]
    split
    · exact Nat.le_succ 1
    · split <;> exact Nat.le_refl 2
  have three : (t.pushWords .full).length = 3 := by
    have one : t.lengthWords.length = 1 := by
      rcases counted with op | op | op <;> simp [lengthWords, op, Opcode.lengthRule] <;> rfl
    simp only [pushWords, List.length_append, List.length_cons, List.length_nil, one]
  rw [words_counted counted, words_counted counted, three]
  exact Nat.lt_succ_of_le two

theorem length_words_compressed_le (wellFormed : t.WellFormed) :
    (t.words .compressed).length ≤ (t.words .full).length := by
  by_cases counted : t.opcode.IsCounted
  · exact Nat.le_of_lt (length_words_compressed_lt counted)
  · rw [words_compressed_of_not_counted wellFormed counted]

theorem flatMap_words_compressed_eq_iff {tokens : List Token}
    (wellFormed : ∀ t ∈ tokens, t.WellFormed) :
    tokens.flatMap (words .compressed) = tokens.flatMap (words .full) ↔
      ∀ t ∈ tokens, ¬ t.opcode.IsCounted := by
  constructor
  · intro same t membership counted
    have fewer := List.sum_lt_sum (fun t => (words .compressed t).length)
      (fun t => (words .full t).length)
      (fun u listed => length_words_compressed_le (wellFormed u listed))
      ⟨t, membership, length_words_compressed_lt counted⟩
    rw [← List.length_flatMap, ← List.length_flatMap, same] at fewer
    exact Nat.lt_irrefl _ fewer
  · intro uncounted
    refine List.flatMap_congr fun t membership => ?_
    exact words_compressed_of_not_counted (wellFormed t membership) (uncounted t membership)

end Words

section WithoutPrefix

variable {t : Token}

theorem wellFormed_withoutPrefix (wellFormed : t.WellFormed) (short : t.data.length ≤ 75) :
    t.withoutPrefix.WellFormed := by
  by_cases counted : t.opcode.IsCounted
  · rw [withoutPrefix_of_counted counted]
    exact wellFormed_data short
  · rwa [withoutPrefix_of_not_counted counted]

theorem size_withoutPrefix_le (short : t.data.length ≤ 75) : t.withoutPrefix.size ≤ t.size := by
  by_cases counted : t.opcode.IsCounted
  · rw [withoutPrefix_of_counted counted, size_direct short, size]
    exact Nat.add_le_add_right (Nat.le_add_right 1 _) _
  · rw [withoutPrefix_of_not_counted counted]

/-- The token without its prefix is shown in either style as the compressed style shows the
token. -/
theorem words_withoutPrefix (wellFormed : t.WellFormed) (short : t.data.length ≤ 75)
    (style : PushStyle) : t.withoutPrefix.words style = t.words .compressed := by
  by_cases counted : t.opcode.IsCounted
  · rw [withoutPrefix_of_counted counted, words_counted counted]
    by_cases empty : t.data = []
    · have number : (Opcode.data 0).constant? = some 0 := rfl
      rw [empty, List.length_nil, words_constant number]
      rfl
    · rw [words_direct empty short]
      simp only [pushWords, if_neg empty, if_pos short, dataWord]
  · rw [withoutPrefix_of_not_counted counted]
    cases style with
    | full => exact (words_compressed_of_not_counted wellFormed counted).symm
    | compressed => rfl

end WithoutPrefix

section Tokens

variable {tokens : List Token}

theorem tokenize_withoutPrefix (wellFormed : ∀ t ∈ tokens, t.WellFormed)
    (short : ∀ t ∈ tokens, t.data.length ≤ 75) :
    tokenize 0 ((tokens.map withoutPrefix).flatMap bytes) = .ok (tokens.map withoutPrefix) := by
  refine tokenize_eq_ok_iff.mpr ⟨?_, rfl⟩
  intro t listed
  obtain ⟨u, membership, rfl⟩ := List.mem_map.mp listed
  exact wellFormed_withoutPrefix (wellFormed u membership) (short u membership)

theorem length_withoutPrefix_le (short : ∀ t ∈ tokens, t.data.length ≤ 75) :
    ((tokens.map withoutPrefix).flatMap bytes).length ≤ (tokens.flatMap bytes).length := by
  rw [length_flatMap_bytes, length_flatMap_bytes, List.map_map]
  exact List.sum_le_sum fun t membership => size_withoutPrefix_le (short t membership)

theorem flatMap_words_withoutPrefix (wellFormed : ∀ t ∈ tokens, t.WellFormed)
    (short : ∀ t ∈ tokens, t.data.length ≤ 75) (style : PushStyle) :
    (tokens.map withoutPrefix).flatMap (words style) = tokens.flatMap (words .compressed) := by
  rw [List.flatMap_map]
  refine List.flatMap_congr fun t membership => ?_
  exact words_withoutPrefix (wellFormed t membership) (short t membership) style

end Tokens

end Token

namespace Reading

/-- Both styles show the same text only if there is no prefix to leave out. -/
theorem shortForm_compressed_eq_iff {r : Reading} (wellFormed : ∀ t ∈ r.tokens, t.WellFormed) :
    r.shortForm .compressed = r.shortForm .full ↔ ∀ t ∈ r.tokens, ¬ t.opcode.IsCounted := by
  rw [← Token.flatMap_words_compressed_eq_iff wellFormed]
  constructor
  · intro same
    have words := congrArg (fun text => Text.words text.toList) same
    simp only [words_shortForm _ wellFormed] at words
    have texts := List.map_injective_iff.mpr (fun _ _ => String.toList_injective) words
    exact List.append_cancel_right texts
  · intro same
    rw [shortForm, shortForm, same]

end Reading

namespace Script

/-- What can be read to its end is built again from its words in the full style. -/
theorem ofShortForm_shortForm_of_tokenize {script : Bytes} {tokens : List Token}
    (tokenized : tokenize 0 script = .ok tokens) (fits : script.length ≤ maxScriptSize) :
    ofShortForm ((Reading.ofBytes script).shortForm .full) = .ok ⟨script⟩ := by
  have read := Reading.ofBytes_of_tokenize tokenized
  have written := (tokenize_eq_ok_iff.mp tokenized).2
  have consumed : (Reading.ofBytes script).consumed = script.length := by
    rw [← Reading.length_flatMap_bytes, read, written]
  have readable : (Reading.ofBytes script).consumed ≤ maxScriptSize := by rwa [consumed]
  have built := ofShortForm_shortForm_of_fits readable
  rw [read] at built
  exact built

/-- Leaving out prefixes makes a difference to the words of a script exactly if it has prefixes. If
all data is short, the compressed words make a script that is no longer. It has the same tokens
without their prefixes, and the same words in either style. -/
theorem ofShortForm_compressed {script : Bytes} {tokens : List Token}
    (tokenized : tokenize 0 script = .ok tokens) :
    ((Reading.ofScript 0 script).shortForm .compressed =
        (Reading.ofScript 0 script).shortForm .full ↔ ∀ t ∈ tokens, ¬ t.opcode.IsCounted) ∧
    (script.length ≤ 16384 → (∀ t ∈ tokens, t.data.length ≤ 75) →
      ∃ direct : Bytes,
        ofShortForm ((Reading.ofScript 0 script).shortForm .compressed) = .ok ⟨direct⟩ ∧
        tokenize 0 direct = .ok (tokens.map Token.withoutPrefix) ∧
        direct.length ≤ script.length ∧
        ∀ style : PushStyle, (Reading.ofScript 0 direct).shortForm style =
          (Reading.ofScript 0 script).shortForm .compressed) := by
  simp only [Reading.ofScript_zero]
  have read := Reading.ofBytes_of_tokenize tokenized
  obtain ⟨wellFormed, written⟩ := tokenize_eq_ok_iff.mp tokenized
  constructor
  · rw [read]
    exact Reading.shortForm_compressed_eq_iff wellFormed
  · intro fits short
    have direct := Token.tokenize_withoutPrefix wellFormed short
    have length := Token.length_withoutPrefix_le short
    rw [written] at length
    have same (style : PushStyle) :
        (Reading.ofBytes ((tokens.map Token.withoutPrefix).flatMap Token.bytes)).shortForm style =
          (Reading.ofBytes script).shortForm .compressed := by
      rw [Reading.ofBytes_of_tokenize direct, read, Reading.shortForm, Reading.shortForm,
        Token.flatMap_words_withoutPrefix wellFormed short]
      rfl
    refine ⟨(tokens.map Token.withoutPrefix).flatMap Token.bytes, ?_, direct, length, same⟩
    rw [← same .full]
    exact ofShortForm_shortForm_of_tokenize direct (Nat.le_trans length fits)

/-- A push of two bytes with a length prefix, one of no bytes, and an opcode. -/
def prefixedPushes : Bytes := [0x4c, 0x02, 0xab, 0xcd, 0x4d, 0x00, 0x00, 0x76]

theorem ofShortForm_compressed_prefixedPushes :
    tokenize 0 prefixedPushes =
        .ok [⟨.pushData1, [0xab, 0xcd]⟩, ⟨.pushData2, []⟩, ⟨.dup, []⟩] ∧
      (Reading.ofScript 0 prefixedPushes).shortForm .compressed ≠
        (Reading.ofScript 0 prefixedPushes).shortForm .full ∧
      prefixedPushes.length ≤ 16384 ∧
      ∃ direct : Bytes, ofShortForm "DATA_2 0xabcd 0 DUP" = .ok ⟨direct⟩ ∧
        tokenize 0 direct = .ok [⟨.data 2, [0xab, 0xcd]⟩, ⟨.zero, []⟩, ⟨.dup, []⟩] ∧
        (Reading.ofScript 0 direct).shortForm .full = "DATA_2 0xabcd 0 DUP" := by
  have tokenized : tokenize 0 prefixedPushes =
      .ok [⟨.pushData1, [0xab, 0xcd]⟩, ⟨.pushData2, []⟩, ⟨.dup, []⟩] := by decide +kernel
  have text : (Reading.ofScript 0 prefixedPushes).shortForm .compressed =
      "DATA_2 0xabcd 0 DUP" := by decide +kernel
  obtain ⟨differs, compresses⟩ := ofShortForm_compressed tokenized
  obtain ⟨direct, built, tokens, -, same⟩ := compresses (by decide) (by decide)
  rw [text] at built
  refine ⟨tokenized, fun equal => ?_, by decide, direct, built, tokens, (same .full).trans text⟩
  exact differs.mp equal ⟨.pushData1, [0xab, 0xcd]⟩ List.mem_cons_self (by decide)

end Script

end LockingScript
