import LockingScript.Script.Basic
import LockingScript.Token.Push

/-!
# Building scripts

A script grows by methods that change it where it stands. Each method looks at the limits before it
writes anything, and the methods that push data choose how to write it. The outcome of a method
holds the script that it leaves, also when it is refused.
-/

namespace LockingScript

/-- Work on a script that may be refused on the way. -/
abbrev Builder := EStateM Error Script

namespace Builder

/-- Refuses if the script has no room for so many more bytes. -/
def reserve (additional : Nat) : Builder Unit := do
  let length := (← get).size + additional
  if maxScriptSize < length then throw (.scriptTooBig length)

/-- Writes the bytes behind the script, however long it is. -/
def extend (bytes : Bytes) : Builder Unit := modify fun s => ⟨s.bytes ++ bytes⟩

def appendOpcode (op : Opcode) : Builder Unit := do
  reserve 1
  extend [op.byte]

/-- Appends bytes that need not be whole tokens. -/
def appendRaw (bytes : Bytes) : Builder Unit := do
  reserve bytes.length
  extend bytes

def appendPush (data : Bytes) : Builder Unit :=
  if maxElementSize < data.length then throw (.elementTooBig data.length)
  else
    match Opcode.forData? data with
    | some op => appendOpcode op
    | none => do
        let front := pushPrefix data.length
        reserve (front.length + data.length)
        extend front
        extend data

def appendInt (n : Int64) : Builder Unit :=
  match Opcode.forInt? n with
  | some op => appendOpcode op
  | none => appendPush (Number.encode n.toInt)

end Builder

/-- A call of one of the methods. -/
inductive Step where
  | opcode (op : Opcode)
  | raw (bytes : Bytes)
  | push (data : Bytes)
  | int (n : Int64)
deriving DecidableEq, Repr

def Step.run : Step → Builder Unit
  | .opcode op => Builder.appendOpcode op
  | .raw bytes => Builder.appendRaw bytes
  | .push data => Builder.appendPush data
  | .int n => Builder.appendInt n

namespace Script

/-- The script with the step taken. A step that is refused gives no script but the reason. -/
def apply (s : Script) (step : Step) : Except Error Script :=
  match step.run s with
  | .ok _ t => .ok t
  | .error cause _ => .error cause

/-- The script that the step leaves, whether it is refused or not. -/
def attempt (s : Script) (step : Step) : Script :=
  match step.run s with
  | .ok _ t => t
  | .error _ t => t

/-- The script that the steps make. The first step that is refused decides the error. -/
def build (steps : List Step) : Except Error Script := steps.foldlM apply empty

end Script

end LockingScript
