import LockingScript.Main
import LockingScript.Output.AtomicSwap
import LockingScript.Output.Stake
import LockingScript.Script.ShortForm
import LockingScript.Proofs.Bytes.Hex
import LockingScript.Proofs.Bytes.LittleEndian
import LockingScript.Proofs.Text.Words
import LockingScript.Proofs.Text.Decimal
import LockingScript.Proofs.Text.Writing
import LockingScript.Proofs.Opcode.Name
import LockingScript.Proofs.Number.Value
import LockingScript.Proofs.Number.Minimal
import LockingScript.Proofs.Number.Shortest
import LockingScript.Proofs.Number.Range
import LockingScript.Proofs.Token.Reading
import LockingScript.Proofs.Token.Cursor
import LockingScript.Proofs.Token.Push
import LockingScript.Proofs.Token.Rendering
import LockingScript.Proofs.Token.Integer
import LockingScript.Proofs.Curve.Field
import LockingScript.Proofs.Curve.Point
import LockingScript.Proofs.Address.Keys
import LockingScript.Proofs.Script.Build
import LockingScript.Proofs.Script.ShortForm
import LockingScript.Proofs.Script.Run
import LockingScript.Proofs.Script.Joining
import LockingScript.Proofs.Output.Payment
import LockingScript.Proofs.Output.Form
import LockingScript.Proofs.Output.Payees
import LockingScript.Proofs.Output.SinglePayee
import LockingScript.Proofs.Output.AtomicSwap
import LockingScript.Proofs.Output.MultiSig
import LockingScript.Proofs.Output.SwapUniqueness
import LockingScript.Proofs.Output.Exclusion
import LockingScript.Proofs.Output.NullData
import LockingScript.Proofs.Output.Malformed
import LockingScript.Proofs.Output.Consistency
import LockingScript.Proofs.Output.MultiSigPayment
import LockingScript.Proofs.Output.MultiSigOutcome
import LockingScript.Proofs.Token.Serialization
import LockingScript.Proofs.Script.Growth
import LockingScript.Proofs.Token.Progress
import LockingScript.Proofs.Output.Tagging
import LockingScript.Proofs.Output.Treasury
import LockingScript.Proofs.Output.Precedence
import LockingScript.Proofs.Output.MultiSigAgreement
import LockingScript.Proofs.Output.Respelling
import LockingScript.Proofs.Token.Shape
import LockingScript.Proofs.Token.Smallest
import LockingScript.Proofs.Token.Concatenation
import LockingScript.Proofs.Token.Resumption
import LockingScript.Proofs.Token.Truncation
import LockingScript.Proofs.Token.Completion
import LockingScript.Proofs.Token.OneLine
import LockingScript.Proofs.Script.Compression
import LockingScript.Proofs.CommandLine.Lines
import LockingScript.Proofs.CommandLine.Options
import LockingScript.Proofs.CommandLine.Report
import LockingScript.Proofs.CommandLine.ErrorMark
import LockingScript.Proofs.Address.Canonical
import LockingScript.Proofs.Token.Canonical
import LockingScript.Proofs.Output.Commitment
