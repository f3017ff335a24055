import LockingScript.Address.Basic
import LockingScript.Bytes.Hex
import LockingScript.Limits
import LockingScript.Token.Reader

/-!
# Errors

Why an operation on scripts, numbers or addresses is refused, and the text that says so.
-/

namespace LockingScript

inductive Error where
  | malformedPush (fault : MalformedPush)
  | nonMinimalNumber (bytes : Bytes)
  | numberTooLong (length limit : Nat)
  | hashLength (length : Nat)
  | noAddress
  | notMultiSigKey (address : Address)
  | notCommitmentHash (address : Address)
  | tooManySignatures (required keys : Nat)
  | nullDataTooLong (length : Nat)
  | unsupportedVersion (version : UInt16)
  | notMultiSig
  | elementTooBig (length : Nat)
  | scriptTooBig (length : Nat)
  | looseKey (length : Nat)
  | edwardsKeyLength (length : Nat)
  | looseSchnorrKey (length : Nat)
  | notOnCurve
  | badWord (word : String)
  | invalidHex (cause : HexError)
deriving DecidableEq, Repr

namespace Error

def message : Error → String
  | .malformedPush fault => "malformed push: " ++ fault.message
  | .nonMinimalNumber bytes =>
      "non-minimal encoding: numeric value encoded as " ++ Hex.encode bytes ++
        " is not minimally encoded"
  | .numberTooLong length limit =>
      "script number too long: " ++ toString length ++ " bytes exceeds the max allowed of " ++
        toString limit
  | .hashLength length => "unsupported address: hash must be 20 bytes, got " ++ toString length
  | .noAddress => "unsupported address: no address"
  | .notMultiSigKey address =>
      "unsupported address: multisig requires secp256k1 public keys, got " ++ address.description
  | .notCommitmentHash address =>
      "unsupported address: ticket commitments require a pubkey hash or script hash, got " ++
        address.description
  | .tooManySignatures required keys =>
      "unable to generate multisig script with " ++ toString required ++
        " required signatures when there are only " ++ toString keys ++ " public keys available"
  | .nullDataTooLong length =>
      "data size " ++ toString length ++ " is larger than max allowed size " ++
        toString maxNullDataSize
  | .unsupportedVersion version => "unsupported script version " ++ toString version.toNat
  | .notMultiSig => "script is not a multisig script"
  | .elementTooBig length =>
      "push of " ++ toString length ++ " bytes exceeds the max allowed element size of " ++
        toString maxElementSize
  | .scriptTooBig length =>
      "script of " ++ toString length ++ " bytes exceeds the max allowed size of " ++
        toString maxScriptSize
  | .looseKey length =>
      "invalid public key: " ++ toString length ++
        " byte key is not a strictly encoded secp256k1 key"
  | .edwardsKeyLength length =>
      "invalid public key: ed25519 key must be 32 bytes, got " ++ toString length
  | .looseSchnorrKey length =>
      "invalid public key: schnorr key must be a 33 byte compressed key, got " ++
        toString length ++ " bytes"
  | .notOnCurve => "invalid public key: signature error"
  | .badWord word => "bad short form token '" ++ word ++ "'"
  | .invalidHex cause => "invalid hex: " ++ cause.message

end Error

end LockingScript
