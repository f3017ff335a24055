import LockingScript.Script.Build

/-!
# Atomic swaps

A swap contract pays to the recipient against the secret with a given hash, and back to the sender
after the lock time. Contracts are recognised only with a secret of 32 bytes, a lock time of at
most five, and with every number and hash in its shortest form.
-/

namespace LockingScript

structure AtomicSwap where
  recipient : BytesN 20
  refund : BytesN 20
  secretHash : BytesN 32
  secretSize : Int64
  lockTime : Int64
deriving DecidableEq, Repr

namespace AtomicSwap

def requiredSecretSize : Int64 := 32

def steps (swap : AtomicSwap) : List Step :=
  [.opcode .opIf,
     .opcode .size, .int swap.secretSize, .opcode .equalVerify,
     .opcode .sha256, .push swap.secretHash.val, .opcode .equalVerify,
     .opcode .dup, .opcode .hash160, .push swap.recipient.val,
   .opcode .opElse,
     .int swap.lockTime, .opcode .checkLockTimeVerify, .opcode .drop,
     .opcode .dup, .opcode .hash160, .push swap.refund.val,
   .opcode .opEndIf,
   .opcode .equalVerify, .opcode .checkSig]

def contract (swap : AtomicSwap) : Except Error Script := Script.build swap.steps

/-- The opcodes of a contract around its two numbers: before the size of the secret, up to the lock
time, and after it. -/
def opening : List Opcode := [.opIf, .size]

def middle : List Opcode :=
  [.equalVerify, .sha256, .data 32, .equalVerify, .dup, .hash160, .data 20, .opElse]

def closing : List Opcode :=
  [.checkLockTimeVerify, .drop, .dup, .hash160, .data 20, .opEndIf, .equalVerify, .checkSig]

def ofTokens? (tokens : List Token) : Option AtomicSwap :=
  match tokens with
  | [t0, t1, size, t3, t4, secret, t6, t7, t8, recipient, t10, lock, t12, t13, t14, t15, refund,
      t17, t18, t19] =>
      if [t0, t1].map Token.opcode = opening ∧
          [t3, t4, secret, t6, t7, t8, recipient, t10].map Token.opcode = middle ∧
          [t12, t13, t14, t15, refund, t17, t18, t19].map Token.opcode = closing then do
        let secretSize ← (size.integer? maxOperandLength).filter (· == requiredSecretSize)
        let lockTime ← lock.integer? maxLockTimeLength
        let recipient ← recipient.data.exactly? 20
        let refund ← refund.data.exactly? 20
        let secretHash ← secret.data.exactly? 32
        return { recipient, refund, secretHash, secretSize, lockTime }
      else none
  | _ => none

/-- The swap of which the script is a contract, if it is one. -/
def ofScript (version : UInt16) (script : Bytes) : Except Error (Option AtomicSwap) :=
  if version ≠ Reading.supportedVersion then .error (.unsupportedVersion version)
  else .ok ((tokenize version script).toOption.bind ofTokens?)

end AtomicSwap

end LockingScript
