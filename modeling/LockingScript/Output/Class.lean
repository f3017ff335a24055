/-!
# Output classes

The class of a script says which of the standard forms it has. Classes are numbered in the order
in which they are listed here.
-/

namespace LockingScript

inductive OutputClass where
  | nonStandard
  | pubKey
  | pubKeyAlt
  | pubKeyHash
  | pubKeyHashAlt
  | scriptHash
  | multiSig
  | nullData
  | stakeSubmission
  | stakeGen
  | stakeRevocation
  | stakeChange
  | treasuryAdd
  | treasurySpend
deriving DecidableEq, Repr

namespace OutputClass

def all : List OutputClass :=
  [nonStandard, pubKey, pubKeyAlt, pubKeyHash, pubKeyHashAlt, scriptHash, multiSig, nullData,
   stakeSubmission, stakeGen, stakeRevocation, stakeChange, treasuryAdd, treasurySpend]

def value (c : OutputClass) : Nat := all.idxOf c

def ofValue? (n : Nat) : Option OutputClass := all[n]?

theorem ofValue?_eq_some_iff {n : Nat} {c : OutputClass} : ofValue? n = some c ↔ n = c.value := by
  constructor
  · intro h
    obtain ⟨lt, _⟩ := List.getElem?_eq_some_iff.mp h
    have each : ∀ m < 14, ∀ d ∈ ofValue? m, m = d.value := by
      simp only [Option.mem_def]
      decide
    exact each n lt c h
  · rintro rfl
    cases c <;> decide

def name : OutputClass → String
  | nonStandard => "nonstandard"
  | pubKey => "pubkey"
  | pubKeyAlt => "pubkeyalt"
  | pubKeyHash => "pubkeyhash"
  | pubKeyHashAlt => "pubkeyhashalt"
  | scriptHash => "scripthash"
  | multiSig => "multisig"
  | nullData => "nulldata"
  | stakeSubmission => "stakesubmission"
  | stakeGen => "stakegen"
  | stakeRevocation => "stakerevoke"
  | stakeChange => "sstxchange"
  | treasuryAdd => "treasuryadd"
  | treasurySpend => "treasuryspend"

/-- The name that goes with a number, whether or not a class has that number. -/
def nameOfValue (n : Nat) : String :=
  match ofValue? n with
  | some c => c.name
  | none => "Invalid"

/-- Whether scripts of the class carry a tag of a ticket's life. -/
def isStake : OutputClass → Bool
  | stakeSubmission | stakeGen | stakeRevocation | stakeChange => true
  | _ => false

end OutputClass

/-- Which forms are recognised besides the ones that always are. -/
structure Policy where
  treasury : Bool := false
deriving DecidableEq, Repr

namespace Policy

def withTreasury : Policy := { treasury := true }

def withoutTreasury : Policy := { treasury := false }

end Policy

end LockingScript
