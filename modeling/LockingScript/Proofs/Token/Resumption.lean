import LockingScript.Proofs.Token.Progress
import LockingScript.Proofs.Token.Serialization

/-!
# Going on in the middle of a script

What is read does not depend on the tokens that were read before. So a script behind tokens is read
as it is read alone, and a cursor has in front of it what reading the script from its index on
gives, a fault and the numbers in it included.
-/

namespace LockingScript

namespace Cursor

/-- What is in front of a cursor: the tokens that it passes on its way to the end of the script,
each with the number of bytes that it moves by, or the fault that it meets. -/
def remaining (c : Cursor) : Except MalformedPush (List (Option Token × Nat)) :=
  match c.last.fault with
  | some fault => .error fault
  | none => .ok c.passed

theorem remaining_eq {c : Cursor} (sound : c.fault = none) :
    c.remaining = (tokenize 0 c.rest).map (List.map fun t => (some t, t.size)) := by
  obtain ⟨rest, index, before, fault⟩ := c
  obtain rfl : fault = none := sound
  rw [remaining, last_eq, passed_eq, tokenize, Reading.ofScript_zero]
  cases (Reading.ofBytes rest).fault <;> rfl

end Cursor

/-- Reading is a homomorphism at the boundaries of tokens. Behind a script that can be read, another
one gives the tokens or the fault that it gives alone. In the same way a cursor that has met no
fault goes on as if the script began at its index. -/
theorem tokenize_resumes :
    (∀ (a b : Bytes) (front : List Token), tokenize 0 a = .ok front →
      (∀ back, tokenize 0 b = .ok back → tokenize 0 (a ++ b) = .ok (front ++ back)) ∧
        ∀ fault, tokenize 0 b = .error fault → tokenize 0 (a ++ b) = .error fault) ∧
    ∀ (version : UInt16) (script : Bytes) (n : Nat),
      ((Cursor.start version script).after n).fault = none →
        ((Cursor.start version script).after n).remaining =
          (tokenize 0 (script.drop ((Cursor.start version script).after n).index)).map
            (List.map fun t => (some t, t.size)) := by
  constructor
  · intro a b front tokenized
    refine ⟨fun back => tokenize_append tokenized, ?_⟩
    intro fault malformed
    have joined : tokenize 0 (a ++ b) = (tokenize 0 b).map (front ++ ·) :=
      tokenize_append_eq_map tokenized b
    rw [joined, malformed]
    rfl
  · intro version script n sound
    have stands := (Cursor.StandsIn.start version script).after n
    rw [Cursor.remaining_eq sound, stands.rest]

/-- Two opcodes in front of a push that is cut short, and in front of one that is not. -/
theorem tokenize_resumes_brokenOff :
    tokenize 0 [0x76, 0xa9] = .ok [⟨.dup, []⟩, ⟨.hash160, []⟩] ∧
      tokenize 0 [0x4c, 0x02, 0x5d] = .error ⟨.pushData1, .payload, 2, 1⟩ ∧
      tokenize 0 [0x76, 0xa9, 0x4c, 0x02, 0x5d] = .error ⟨.pushData1, .payload, 2, 1⟩ ∧
      tokenize 0 [0x01, 0x5d] = .ok [⟨.data 1, [0x5d]⟩] ∧
      tokenize 0 [0x76, 0xa9, 0x01, 0x5d] =
        .ok [⟨.dup, []⟩, ⟨.hash160, []⟩, ⟨.data 1, [0x5d]⟩] ∧
      ((Cursor.start 0 [0x76, 0xa9, 0x4c, 0x02, 0x5d]).after 2).fault = none ∧
      ((Cursor.start 0 [0x76, 0xa9, 0x4c, 0x02, 0x5d]).after 2).remaining =
        .error ⟨.pushData1, .payload, 2, 1⟩ := by
  have front : tokenize 0 [0x76, 0xa9] = .ok [⟨.dup, []⟩, ⟨.hash160, []⟩] := by decide +kernel
  have cut : tokenize 0 [0x4c, 0x02, 0x5d] = .error ⟨.pushData1, .payload, 2, 1⟩ := by
    decide +kernel
  have whole : tokenize 0 [0x01, 0x5d] = .ok [⟨.data 1, [0x5d]⟩] := by decide +kernel
  have sound : ((Cursor.start 0 [0x76, 0xa9, 0x4c, 0x02, 0x5d]).after 2).fault = none := by decide
  obtain ⟨joined, resumed⟩ := tokenize_resumes
  refine ⟨front, cut, (joined _ _ _ front).2 _ cut, whole, (joined _ _ _ front).1 _ whole, sound,
    ?_⟩
  rw [resumed 0 _ 2 sound]
  exact congrArg (Except.map (List.map fun t => (some t, t.size))) cut

end LockingScript
