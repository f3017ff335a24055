import LockingScript.CommandLine.Options
import LockingScript.Output.Classification
import LockingScript.Script.Basic
import LockingScript.Text.Words
import LockingScript.Token.Cursor

/-!
# Reports

What the program writes about a script: a line with the script in words, and a few lines that say
what kind of output it is and whom it pays. A script that cannot be read to its end gets only the
first line, and a text that is no script gets none.
-/

namespace LockingScript.CommandLine

/-- What a run of the program leaves behind. -/
structure Outcome where
  status : UInt32
  output : String
  errors : String
deriving DecidableEq, Repr

namespace Outcome

def success (output : String) : Outcome := ⟨0, output, ""⟩

/-- A failure after some output, with its cause. -/
def failure (output what cause : String) : Outcome :=
  ⟨1, output, "Error: " ++ what ++ "\n\nCaused by:\n    " ++ cause ++ "\n"⟩

/-- A failure after some output that is reported by its cause alone. -/
def bareFailure (output cause : String) : Outcome := ⟨1, output, "Error: " ++ cause ++ "\n"⟩

end Outcome

def unlines (lines : List String) : String := String.join (lines.map (· ++ "\n"))

/-- The script in words. The one-line form is that of version 0 and knows one style. -/
def rendering (o : Options) (script : Bytes) : String :=
  if o.oneLine then (Reading.ofBytes script).oneLine
  else (Reading.ofScript o.version script).shortForm o.style

def classLine (c : Classification) : String :=
  match c.inner with
  | some inner => "class: " ++ c.outputClass.name ++ " (" ++ inner.name ++ ")"
  | none => "class: " ++ c.outputClass.name

def payeeLines (p : Payees) : List String :=
  (if 0 < p.required then ["required signatures: " ++ toString p.required] else []) ++
    p.addresses.map fun address => "address payload: " ++ Hex.encode address.payload

def inspect (o : Options) (text : String) : Outcome :=
  match Hex.decode (Text.trim text.toList) with
  | .error cause => .failure "" "script is not valid hex" cause.message
  | .ok script =>
      let head := rendering o script
      match checkParses o.version script with
      | .error fault =>
          .failure (unlines [head]) "script does not parse" (Error.malformedPush fault).message
      | .ok () =>
          let kind := classLine (classify o.version script o.policy)
          match payees o.version script o.policy with
          | .error fault => .bareFailure (unlines [head, kind]) (Error.malformedPush fault).message
          | .ok found => .success (unlines (head :: kind :: payeeLines found))

def versionText : String := "txscript-disasm 0.1.0\n"

def usageLine : String := "Usage: txscript-disasm [OPTIONS] <SCRIPT>"

def helpText : String :=
  unlines
    ["Disassemble and classify a hex encoded script", "", usageLine, "",
     "Arguments:",
     "  <SCRIPT>  Script bytes as hex", "",
     "Options:",
     "      --compress                         Render data pushes in compressed form",
     "      --script-version <SCRIPT_VERSION>  Script version [default: 0]",
     "      --treasury                         Recognize treasury scripts",
     "      --oneline                          Render on one line with full opcode names",
     "  -h, --help                             Print help",
     "  -V, --version                          Print version"]

/-- Misuse of the options has a status of its own. -/
def misuse (e : UsageError) : Outcome :=
  ⟨2, "", unlines ["error: " ++ e.message, "", usageLine]⟩

def run (arguments : List String) : Outcome :=
  match Command.ofArguments arguments with
  | .ok (.inspect options script) => inspect options script
  | .ok .showHelp => .success helpText
  | .ok .showVersion => .success versionText
  | .error e => misuse e

end LockingScript.CommandLine
