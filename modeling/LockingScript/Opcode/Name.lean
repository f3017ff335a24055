import LockingScript.Opcode.Basic

/-!
# Opcode names

Every opcode has one name. Names are written with the mark `OP_` in front or, in the short form,
without it. A few opcodes can also be read under a second name.
-/

namespace LockingScript.Opcode

/-- The names from `0x4c` to `0xc3`. -/
def middleNames : List String :=
  ["PUSHDATA1", "PUSHDATA2", "PUSHDATA4", "1NEGATE", "RESERVED",
   "1", "2", "3", "4", "5", "6", "7", "8", "9", "10", "11", "12", "13", "14", "15", "16",
   "NOP", "VER", "IF", "NOTIF", "VERIF", "VERNOTIF", "ELSE", "ENDIF", "VERIFY", "RETURN",
   "TOALTSTACK", "FROMALTSTACK", "2DROP", "2DUP", "3DUP", "2OVER", "2ROT", "2SWAP", "IFDUP",
   "DEPTH", "DROP", "DUP", "NIP", "OVER", "PICK", "ROLL", "ROT", "SWAP", "TUCK", "CAT", "SUBSTR",
   "LEFT", "RIGHT", "SIZE", "INVERT", "AND", "OR", "XOR", "EQUAL", "EQUALVERIFY", "ROTR", "ROTL",
   "1ADD", "1SUB", "2MUL", "2DIV", "NEGATE", "ABS", "NOT", "0NOTEQUAL", "ADD", "SUB", "MUL", "DIV",
   "MOD", "LSHIFT", "RSHIFT", "BOOLAND", "BOOLOR", "NUMEQUAL", "NUMEQUALVERIFY", "NUMNOTEQUAL",
   "LESSTHAN", "GREATERTHAN", "LESSTHANOREQUAL", "GREATERTHANOREQUAL", "MIN", "MAX", "WITHIN",
   "RIPEMD160", "SHA1", "BLAKE256", "HASH160", "HASH256", "CODESEPARATOR", "CHECKSIG",
   "CHECKSIGVERIFY", "CHECKMULTISIG", "CHECKMULTISIGVERIFY", "NOP1", "CHECKLOCKTIMEVERIFY",
   "CHECKSEQUENCEVERIFY", "NOP4", "NOP5", "NOP6", "NOP7", "NOP8", "NOP9", "NOP10", "SSTX", "SSGEN",
   "SSRTX", "SSTXCHANGE", "CHECKSIGALT", "CHECKSIGALTVERIFY", "SHA256", "TADD", "TSPEND", "TGEN"]

/-- The names from `0xf9` on. -/
def lastNames : List String :=
  ["INVALID249", "SMALLINTEGER", "PUBKEYS", "UNKNOWN252", "PUBKEYHASH", "PUBKEY", "INVALIDOPCODE"]

/-- The short names in the order of the opcodes. Direct pushes and opcodes without a meaning carry
their number. -/
def shortNames : List String :=
  "0" :: (List.range' 1 75).map (fun n => "DATA_" ++ toString n) ++ middleNames ++
    (List.range' 196 53).map (fun n => "UNKNOWN" ++ toString n) ++ lastNames

theorem length_shortNames : shortNames.length = 256 := by decide +kernel

def shortName (op : Opcode) : String :=
  shortNames.get ⟨op.byte.toNat, length_shortNames ▸ op.byte.toNat_lt⟩

def name (op : Opcode) : String := "OP_" ++ op.shortName

/-- Second names of some opcodes, without the mark. -/
def aliases : List (String × Opcode) :=
  [("FALSE", ⟨0x00⟩), ("TRUE", ⟨0x51⟩), ("NOP2", ⟨0xb1⟩), ("NOP3", ⟨0xb2⟩)]

/-- The name without the mark `OP_`, which is taken off once. -/
def bareName (name : String) : String :=
  match name.toList with
  | 'O' :: 'P' :: '_' :: bare => String.ofList bare
  | _ => name

/-- The opcode with the given name. -/
def ofName? (name : String) : Option Opcode :=
  let bare := bareName name
  (aliases.lookup bare).or ((shortNames.idxOf? bare).map fun n => ⟨UInt8.ofNat n⟩)

example : ofName? "OP_CHECKSIG" = some checkSig := by decide +kernel

example : ofName? "OP_OP_DUP" = none := by decide +kernel

end LockingScript.Opcode
