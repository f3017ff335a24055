import LockingScript.Address.Basic
import LockingScript.Script.Build

/-!
# Scripts that pay

The scripts of the standard forms, built from addresses and data.
-/

namespace LockingScript

namespace SignatureScheme

/-- Checks a signature of the scheme, which is named by number unless it is ECDSA. -/
def checkSteps : SignatureScheme → List Step
  | .ecdsa => [.opcode .checkSig]
  | scheme => [.int (Int64.ofNat scheme.code), .opcode .checkSigAlt]

end SignatureScheme

namespace Address

def paymentSteps : Address → List Step
  | .pubKeyHash hash scheme =>
      [.opcode .dup, .opcode .hash160, .push hash.val, .opcode .equalVerify] ++ scheme.checkSteps
  | .scriptHash hash => [.opcode .hash160, .push hash.val, .opcode .equal]
  | .secpKey key => .push key.val :: SignatureScheme.ecdsa.checkSteps
  | .edwardsKey key => .push key.val :: SignatureScheme.ed25519.checkSteps
  | .schnorrKey key => .push key.val :: SignatureScheme.schnorr.checkSteps

end Address

namespace Script

def payTo : Option Address → Except Error Script
  | some address => build address.paymentSteps
  | none => .error .noAddress

/-- Appends a key of a multisig script. -/
def appendKey (s : Script) : Address → Except Error Script
  | .secpKey key => s.apply (.push key.val)
  | other => .error (.notMultiSigKey other)

/-- Requires signatures for some of the given keys. Keys are taken in order, and the first one
that cannot be appended decides the error. -/
def multiSig (keys : List Address) (required : Nat) : Except Error Script :=
  if keys.length < required then .error (.tooManySignatures required keys.length)
  else do
    let s ← empty.apply (.int (Int64.ofNat required))
    let s ← keys.foldlM appendKey s
    let s ← s.apply (.int (Int64.ofNat keys.length))
    s.apply (.opcode .checkMultiSig)

/-- `RETURN` and one push. -/
def returning (data : Bytes) : Except Error Script := build [.opcode .opReturn, .push data]

def nullData (data : Bytes) : Except Error Script :=
  if maxNullDataSize < data.length then .error (.nullDataTooLong data.length) else returning data

end Script

end LockingScript
