import LockingScript.Output.Class
import LockingScript.Text.Decimal
import LockingScript.Token.Rendering

/-!
# Options

The arguments are read from left to right. A word that starts with two dashes names an option, and
`--` alone makes all later words positional. There are no short options besides those for help and
version, so every other word that starts with a dash and goes on is refused. An option may be given
once. Reading ends at the first word that is wrong or asks for help or version.
-/

namespace LockingScript.CommandLine

/-- How a script is shown. -/
structure Options where
  style : PushStyle
  version : UInt16
  policy : Policy
  oneLine : Bool
deriving DecidableEq, Repr

inductive Command where
  | inspect (options : Options) (script : String)
  | showHelp
  | showVersion
deriving DecidableEq, Repr

inductive UsageError where
  | missingScript
  | extraArgument (word : String)
  | unknownOption (word : String)
  | repeatedOption (name : String)
  | missingValue (name : String)
  | unexpectedValue (name : String)
  | badVersion (text : String)
deriving DecidableEq, Repr

def UsageError.message : UsageError → String
  | .missingScript => "the script is missing"
  | .extraArgument word => "one script is enough, but found '" ++ word ++ "'"
  | .unknownOption word => "there is no option '" ++ word ++ "'"
  | .repeatedOption name => "the option '--" ++ name ++ "' is given twice"
  | .missingValue name => "the option '--" ++ name ++ "' needs a value"
  | .unexpectedValue name => "the option '--" ++ name ++ "' takes no value"
  | .badVersion text => "'" ++ text ++ "' is no script version"

inductive Switch where
  | compress
  | treasury
  | oneLine
deriving DecidableEq, Repr

namespace Switch

def name : Switch → String
  | .compress => "compress"
  | .treasury => "treasury"
  | .oneLine => "oneline"

def all : List Switch := [.compress, .treasury, .oneLine]

end Switch

/-- What a word of the command line is. A version may be given in the same word or be left to the
next one. -/
inductive Word where
  | positional (text : String)
  | switch (s : Switch)
  | version (value : Option String)
  | command (c : Command)
deriving DecidableEq, Repr

namespace Word

/-- The name of the option that takes a value. -/
def versionName : String := "script-version"

/-- An option by its name and the value that is attached to the name. -/
def ofOption (word : String) (name : String) (value : Option String) : Except UsageError Word :=
  if name = versionName then .ok (.version value)
  else
    let plain : Option Word :=
      if name = "help" then some (.command .showHelp)
      else if name = "version" then some (.command .showVersion)
      else (Switch.all.find? fun s => s.name = name).map switch
    match plain, value with
    | none, _ => .error (.unknownOption word)
    | some _, some _ => .error (.unexpectedValue name)
    | some found, none => .ok found

/-- Splits a long option at the first equals sign. -/
def splitValue (text : List Char) : String × Option String :=
  let name := String.ofList (text.takeWhile (· ≠ '='))
  match text.dropWhile (· ≠ '=') with
  | [] => (name, none)
  | _ :: value => (name, some (String.ofList value))

def ofArgument (word : String) : Except UsageError Word :=
  match word.toList with
  | '-' :: '-' :: text => ofOption word (splitValue text).1 (splitValue text).2
  | '-' :: c :: _ =>
      if c = 'h' then .ok (.command .showHelp)
      else if c = 'V' then .ok (.command .showVersion)
      else .error (.unknownOption word)
  | _ => .ok (.positional word)

/-- Whether a word cannot be the value of an option. A single dash can. -/
def isOption (word : String) : Bool :=
  match word.toList with
  | '-' :: _ :: _ => true
  | _ => false

end Word

/-- What has been read so far. -/
structure Draft where
  script : Option String
  version : Option UInt16
  switches : List Switch
deriving DecidableEq, Repr

namespace Draft

def empty : Draft := ⟨none, none, []⟩

def addScript (d : Draft) (text : String) : Except UsageError Draft :=
  if d.script.isSome then .error (.extraArgument text) else .ok { d with script := some text }

def addSwitch (d : Draft) (s : Switch) : Except UsageError Draft :=
  if s ∈ d.switches then .error (.repeatedOption s.name)
  else .ok { d with switches := s :: d.switches }

def addVersion (d : Draft) (text : String) : Except UsageError Draft :=
  if d.version.isSome then .error (.repeatedOption Word.versionName)
  else
    match Text.uint16? text.toList with
    | some version => .ok { d with version := some version }
    | none => .error (.badVersion text)

def options (d : Draft) : Options where
  style := if .compress ∈ d.switches then .compressed else .full
  version := d.version.getD Reading.supportedVersion
  policy := ⟨.treasury ∈ d.switches⟩
  oneLine := .oneLine ∈ d.switches

def finish (d : Draft) : Except UsageError Command :=
  match d.script with
  | some script => .ok (.inspect d.options script)
  | none => .error .missingScript

def read (d : Draft) : List String → Except UsageError Command
  | [] => d.finish
  | "--" :: rest => do (← rest.foldlM addScript d).finish
  | word :: rest => do
      match ← Word.ofArgument word with
      | .positional text => (← d.addScript text).read rest
      | .switch s => (← d.addSwitch s).read rest
      | .command c => return c
      | .version (some text) => (← d.addVersion text).read rest
      | .version none =>
          match rest with
          | [] => throw (.missingValue Word.versionName)
          | text :: rest =>
              if Word.isOption text then throw (.missingValue Word.versionName)
              else (← d.addVersion text).read rest

end Draft

def Command.ofArguments (arguments : List String) : Except UsageError Command :=
  Draft.empty.read arguments

end LockingScript.CommandLine
