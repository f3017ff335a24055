import LockingScript.Output.Payment

/-!
# Ticket and vote data

Outputs of tickets and votes carry their data behind `RETURN`, as numbers of fixed width with the
least significant byte first.
-/

namespace LockingScript.Script

/-- The data of a ticket commitment: the hash, the amount in eight bytes and the fee limits in
two. The top bit of the amount is set for a script hash. -/
def commitmentData (hash : BytesN 20) (isScript : Bool) (amount : Int64) (limits : UInt16) :
    Bytes :=
  let low := LittleEndian.encode 7 amount.toUInt64.toNat
  let high := UInt8.ofNat (amount.toUInt64.toNat >>> 56)
  hash.val ++ low ++ [if isScript then high ||| 0x80 else high] ++
    LittleEndian.encode 2 limits.toNat

def ticketCommitment (address : Address) (amount : Int64) (limits : UInt16) :
    Except Error Script :=
  match address with
  | .pubKeyHash hash .ecdsa => returning (commitmentData hash false amount limits)
  | .scriptHash hash => returning (commitmentData hash true amount limits)
  | other => .error (.notCommitmentHash other)

/-- Names the block that a vote refers to. -/
def blockReference (hash : BytesN 32) (height : UInt32) : Except Error Script :=
  returning (hash.val ++ LittleEndian.encode 4 height.toNat)

def voteBits (bits : UInt16) : Except Error Script :=
  returning (LittleEndian.encode 2 bits.toNat)

end LockingScript.Script
