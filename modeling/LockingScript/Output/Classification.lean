import LockingScript.Output.Form

/-!
# Classes and payees of scripts

A script that cannot be read has the class of scripts without a standard form, but its payees
cannot be asked for.
-/

namespace LockingScript

/-- The class of a script and, behind a tag, the class of the tagged script. -/
structure Classification where
  outputClass : OutputClass
  inner : Option OutputClass
deriving DecidableEq, Repr

def classify (version : UInt16) (script : Bytes) (policy : Policy) : Classification :=
  match tokenize version script with
  | .ok tokens =>
      let form := Form.ofTokens policy tokens
      ⟨form.outputClass, form.innerClass?⟩
  | .error _ => ⟨.nonStandard, none⟩

/-- The class of a script alone. -/
def OutputClass.ofScript (version : UInt16) (script : Bytes) (policy : Policy) : OutputClass :=
  (classify version script policy).outputClass

/-- The class of the script behind the tag of a script. -/
def OutputClass.behindTag? (version : UInt16) (script : Bytes) (policy : Policy) :
    Option OutputClass :=
  (classify version script policy).inner

/-- Who is paid by a script and how many of them have to sign. -/
structure Payees where
  outputClass : OutputClass
  addresses : List Address
  required : Nat
deriving DecidableEq, Repr

namespace Form

def addressOfKey (key : Bytes) : SignatureScheme → Except Error Address
  | .ecdsa => Address.ofSecpKey key
  | .ed25519 => Address.ofEdwardsKey key
  | .schnorr => Address.ofSchnorrKey key

/-- The addresses that the form pays to. A key or a hash that no address can be made of is left
out. -/
def addresses : Form → List Address
  | pubKey key => (Address.ofSecpKey key).toOption.toList
  | pubKeyHash hash => (Address.ofPubKeyHash hash .ecdsa).toOption.toList
  | pubKeyAlt key scheme => (addressOfKey key scheme).toOption.toList
  | pubKeyHashAlt hash scheme => (Address.ofPubKeyHash hash scheme).toOption.toList
  | scriptHash hash => (Address.ofScriptHash hash).toOption.toList
  | multiSig m => m.strictKeys.filterMap fun key => (Address.ofSecpKey key).toOption
  | tagged _ (.pubKeyHash hash) => (Address.ofPubKeyHash hash .ecdsa).toOption.toList
  | tagged _ (.scriptHash hash) => (Address.ofScriptHash hash).toOption.toList
  | nullData | treasuryAdd | nonStandard => []

def required : Form → Nat
  | multiSig m => m.required
  | nullData | treasuryAdd | nonStandard => 0
  | _ => 1

def payees (form : Form) : Payees := ⟨form.outputClass, form.addresses, form.required⟩

end Form

def payees (version : UInt16) (script : Bytes) (policy : Policy) : Except MalformedPush Payees :=
  (tokenize version script).map fun tokens => (Form.ofTokens policy tokens).payees

/-- The multisig form of a script of version 0. -/
def MultiSig.ofScript (script : Bytes) : Except Error MultiSig :=
  match tokenize Reading.supportedVersion script with
  | .error _ => .error .notMultiSig
  | .ok tokens =>
      match MultiSig.ofTokens? tokens with
      | some m => .ok m
      | none => .error .notMultiSig

end LockingScript
