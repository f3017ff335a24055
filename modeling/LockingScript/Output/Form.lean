import LockingScript.Address.Keys
import LockingScript.Output.Class
import LockingScript.Token.Push

/-!
# Standard forms

Each standard form of a script has a reader that takes the tokens of a script and returns what the
form carries, or nothing if the tokens have another form. The readers compare opcodes, so a hash or
a key outside of multisig has to be pushed directly. `Form.ofTokens` tries them in a fixed order.
-/

namespace LockingScript

/-- A multisig script by its number of required signatures and the data that stands for keys. -/
structure MultiSig where
  required : Nat
  keys : List Bytes
deriving DecidableEq, Repr

namespace MultiSig

def strictKeys (m : MultiSig) : List Bytes := m.keys.filter IsStrictKey

/-- Whether a token can stand for a key: any push of data will do, but no push of a number. -/
def isKeySlot (t : Token) : Bool := t.opcode.IsPush && t.opcode.smallInt?.isNone

/-- The number of required signatures, the keys, the number of keys and `CHECKMULTISIG`. -/
def ofTokens? (tokens : List Token) : Option MultiSig :=
  match tokens with
  | [] => none
  | first :: others =>
      match others.reverse with
      | last :: count :: slots =>
          match first.opcode.smallInt?, count.opcode.smallInt? with
          | some required, some total =>
              if last.opcode = .checkMultiSig ∧ slots.length = total ∧ 0 < required ∧
                  required ≤ total ∧ total ≤ maxMultiSigKeys ∧ slots.all isKeySlot then
                some ⟨required, slots.reverse.map Token.data⟩
              else none
          | _, _ => none
      | _ => none

end MultiSig

/-- The hash that a tagged script pays to, as it stands in the script. -/
inductive TaggedHash where
  | pubKeyHash (hash : Bytes)
  | scriptHash (hash : Bytes)
deriving DecidableEq, Repr

def TaggedHash.outputClass : TaggedHash → OutputClass
  | .pubKeyHash _ => .pubKeyHash
  | .scriptHash _ => .scriptHash

inductive Tag where
  | submission
  | vote
  | revocation
  | change
  | treasurySpend
deriving DecidableEq, Repr

namespace Tag

def outputClass : Tag → OutputClass
  | .submission => .stakeSubmission
  | .vote => .stakeGen
  | .revocation => .stakeRevocation
  | .change => .stakeChange
  | .treasurySpend => .treasurySpend

def opcode : Tag → Opcode
  | .submission => .sstx
  | .vote => .ssgen
  | .revocation => .ssrtx
  | .change => .sstxChange
  | .treasurySpend => .tgen

def all (policy : Policy) : List Tag :=
  [.submission, .vote, .revocation, .change] ++ if policy.treasury then [.treasurySpend] else []

def ofOpcode? (policy : Policy) (op : Opcode) : Option Tag :=
  (all policy).find? fun tag => tag.opcode = op

end Tag

/-- A standard form with what it carries. Keys and hashes are the data of their pushes. -/
inductive Form where
  | nonStandard
  | pubKey (key : Bytes)
  | pubKeyHash (hash : Bytes)
  | pubKeyAlt (key : Bytes) (scheme : SignatureScheme)
  | pubKeyHashAlt (hash : Bytes) (scheme : SignatureScheme)
  | scriptHash (hash : Bytes)
  | multiSig (m : MultiSig)
  | nullData
  | tagged (tag : Tag) (hash : TaggedHash)
  | treasuryAdd
deriving DecidableEq, Repr

namespace Form

/-- A strictly encoded key and `CHECKSIG`. -/
def pubKey? : List Token → Option Bytes
  | [key, check] =>
      if check.opcode = .checkSig ∧ (key.opcode = .data 33 ∨ key.opcode = .data 65) ∧
          IsStrictKey key.data then
        some key.data
      else none
  | _ => none

/-- `DUP HASH160`, the hash, `EQUALVERIFY` and `CHECKSIG`. -/
def pubKeyHash? : List Token → Option Bytes
  | [dup, hash160, hash, verify, check] =>
      if dup.opcode = .dup ∧ hash160.opcode = .hash160 ∧ hash.opcode = .data 20 ∧
          verify.opcode = .equalVerify ∧ check.opcode = .checkSig then
        some hash.data
      else none
  | _ => none

/-- The scheme that a token selects by a small number. -/
def scheme? (t : Token) : Option SignatureScheme :=
  t.opcode.smallInt?.bind SignatureScheme.ofSelector?

/-- A key, the number of its signature scheme and `CHECKSIGALT`. An Ed25519 key has 32 bytes, and
a Schnorr key is compressed. -/
def pubKeyAlt? : List Token → Option (Bytes × SignatureScheme)
  | [key, selector, check] =>
      if check.opcode = .checkSigAlt then
        match scheme? selector with
        | some .ed25519 => if key.opcode = .data 32 then some (key.data, .ed25519) else none
        | some .schnorr =>
            if key.opcode = .data 33 ∧ IsCompressedKey key.data then some (key.data, .schnorr)
            else none
        | _ => none
      else none
  | _ => none

/-- `DUP HASH160`, the hash, `EQUALVERIFY`, the number of the scheme and `CHECKSIGALT`. -/
def pubKeyHashAlt? : List Token → Option (Bytes × SignatureScheme)
  | [dup, hash160, hash, verify, selector, check] =>
      if dup.opcode = .dup ∧ hash160.opcode = .hash160 ∧ hash.opcode = .data 20 ∧
          verify.opcode = .equalVerify ∧ check.opcode = .checkSigAlt then
        (scheme? selector).map fun scheme => (hash.data, scheme)
      else none
  | _ => none

/-- `HASH160`, the hash and `EQUAL`. -/
def scriptHash? : List Token → Option Bytes
  | [hash160, hash, equal] =>
      if hash160.opcode = .hash160 ∧ hash.opcode = .data 20 ∧ equal.opcode = .equal then
        some hash.data
      else none
  | _ => none

/-- `RETURN`, alone or with one push that is not too long. The push of -1 does not count. -/
def isNullData : List Token → Bool
  | [ret] => ret.opcode = .opReturn
  | [ret, push] =>
      ret.opcode = .opReturn && (push.opcode.IsPush || push.opcode.smallInt?.isSome) &&
        push.data.length ≤ maxNullDataSize
  | _ => false

/-- A tag and a script that pays to a hash. -/
def tagged? (policy : Policy) : List Token → Option (Tag × TaggedHash)
  | [] => none
  | tag :: inner =>
      match Tag.ofOpcode? policy tag.opcode, pubKeyHash? inner, scriptHash? inner with
      | some tag, some hash, _ => some (tag, .pubKeyHash hash)
      | some tag, none, some hash => some (tag, .scriptHash hash)
      | _, _, _ => none

def isTreasuryAdd (policy : Policy) (tokens : List Token) : Bool :=
  policy.treasury && tokens.map Token.opcode = [.tadd]

/-- The readers of all forms, in the order in which they are tried. -/
def readers (policy : Policy) : List (List Token → Option Form) :=
  [fun tokens => (pubKey? tokens).map pubKey,
   fun tokens => (pubKeyHash? tokens).map pubKeyHash,
   fun tokens => (pubKeyAlt? tokens).map fun found => pubKeyAlt found.1 found.2,
   fun tokens => (pubKeyHashAlt? tokens).map fun found => pubKeyHashAlt found.1 found.2,
   fun tokens => (scriptHash? tokens).map scriptHash,
   fun tokens => (MultiSig.ofTokens? tokens).map multiSig,
   fun tokens => if isNullData tokens then some nullData else none,
   fun tokens => (tagged? policy tokens).map fun found => tagged found.1 found.2,
   fun tokens => if isTreasuryAdd policy tokens then some treasuryAdd else none]

def ofTokens (policy : Policy) (tokens : List Token) : Form :=
  ((readers policy).findSome? fun reader => reader tokens).getD nonStandard

def outputClass : Form → OutputClass
  | nonStandard => .nonStandard
  | pubKey _ => .pubKey
  | pubKeyHash _ => .pubKeyHash
  | pubKeyAlt _ _ => .pubKeyAlt
  | pubKeyHashAlt _ _ => .pubKeyHashAlt
  | scriptHash _ => .scriptHash
  | multiSig _ => .multiSig
  | nullData => .nullData
  | tagged tag _ => tag.outputClass
  | treasuryAdd => .treasuryAdd

/-- The class of the script behind a tag. -/
def innerClass? : Form → Option OutputClass
  | tagged _ hash => some hash.outputClass
  | _ => none

end Form

end LockingScript
