import LockingScript.Proofs.Output.Form

/-!
# How a multisig script is spelled

The reader looks at the tokens from both ends. What it accepts is stated from the front, in the
order in which the tokens stand.
-/

namespace LockingScript.MultiSig

variable {tokens : List Token} {m : MultiSig}

/-- How a multisig script is spelled: the number of required signatures, the slots for keys, the
number of keys and `CHECKMULTISIG`. -/
structure Layout (m : MultiSig) (first : Token) (slots : List Token) (count last : Token) :
    Prop where
  required : first.opcode.smallInt? = some m.required
  total : count.opcode.smallInt? = some slots.length
  check : last.opcode = .checkMultiSig
  pos : 0 < m.required
  required_le : m.required ≤ slots.length
  length_le : slots.length ≤ maxMultiSigKeys
  keySlots : ∀ t ∈ slots, isKeySlot t = true
  keys : m.keys = slots.map Token.data

theorem ofTokens?_eq_some_iff :
    ofTokens? tokens = some m ↔
      ∃ first slots count last, tokens = first :: (slots ++ [count, last]) ∧
        m.Layout first slots count last := by
  constructor
  · intro found
    unfold ofTokens? at found
    split at found
    · cases found
    · rename_i first others
      split at found
      · rename_i last count reversed ends
        have spelled : others = reversed.reverse ++ [count, last] := by
          rw [← List.reverse_reverse others, ends]
          simp
        split at found
        · rename_i required total requiredRead totalRead
          split at found
          · rename_i shape
            obtain ⟨check, length, pos, required_le, length_le, slots⟩ := shape
            cases found
            refine ⟨first, reversed.reverse, count, last, by rw [spelled], requiredRead, ?_, check,
              pos, ?_, ?_, ?_, rfl⟩
            · rw [totalRead, List.length_reverse, length]
            · rwa [List.length_reverse, length]
            · rwa [List.length_reverse, length]
            · intro t membership
              exact List.all_eq_true.mp slots t (List.mem_reverse.mp membership)
          · cases found
        · cases found
      · cases found
  · rintro ⟨first, slots, count, last, rfl, layout⟩
    obtain ⟨required, keys⟩ := m
    have keysRead : keys = slots.map Token.data := layout.keys
    have ends : (slots ++ [count, last]).reverse = last :: count :: slots.reverse := by simp
    have slotsRead : slots.reverse.all isKeySlot = true := by
      rw [List.all_reverse]
      exact List.all_eq_true.mpr layout.keySlots
    simp only [ofTokens?, ends, layout.required, layout.total]
    rw [if_pos ⟨layout.check, List.length_reverse, layout.pos, layout.required_le,
      layout.length_le, slotsRead⟩, List.reverse_reverse, keysRead]

theorem ofScript_of_tokenize {script : Bytes} {tokens : List Token}
    (tokenized : tokenize 0 script = .ok tokens) :
    ofScript script = (ofTokens? tokens).elim (.error .notMultiSig) .ok := by
  have read : tokenize Reading.supportedVersion script = .ok tokens := tokenized
  simp only [ofScript, read]
  cases ofTokens? tokens <;> rfl

end LockingScript.MultiSig
