import LockingScript.Bytes.Hex
import LockingScript.Token.Reader

/-!
# Tokens as text

The short form of a token is one or more words: its name or number, and for a push the data in
hex. In the full style the length prefix is written too, so that the words spell out every byte;
the compressed style writes every push of at most 75 bytes as a direct one. On one line, a push is
nothing but its data in hex, and names carry their mark.
-/

namespace LockingScript

inductive PushStyle where
  | full
  | compressed
deriving DecidableEq, Repr

namespace Token

/-- A number in hex with at least two digits. -/
def hexNumber (n : Nat) : String :=
  (if n < 16 then "0" else "") ++ String.ofList (Nat.toDigits 16 n)

def lengthWords (t : Token) : List String :=
  match t.opcode.lengthRule with
  | .fixed _ => []
  | .prefixed 1 => ["0x" ++ hexNumber t.data.length]
  | .prefixed width => ["0x" ++ Hex.encode (LittleEndian.encode width t.data.length)]

def dataWord (t : Token) : String := "0x" ++ Hex.encode t.data

def pushWords (t : Token) : PushStyle → List String
  | .full => t.opcode.shortName :: t.lengthWords ++ [t.dataWord]
  | .compressed =>
      if t.data = [] then ["0"]
      else if t.data.length ≤ 75 then ["DATA_" ++ toString t.data.length, t.dataWord]
      else [t.opcode.shortName, t.dataWord]

def words (style : PushStyle) (t : Token) : List String :=
  match t.opcode.constant? with
  | some n => [toString n]
  | none => if t.opcode.IsPush then t.pushWords style else [t.opcode.shortName]

def shortForm (style : PushStyle) (t : Token) : String := " ".intercalate (t.words style)

/-- The token as a unit of the one-line form. A push without data leaves it empty. -/
def unit (t : Token) : String :=
  match t.opcode.constant? with
  | some n => toString n
  | none => if t.opcode.IsPush then Hex.encode t.data else t.opcode.name

end Token

namespace Reading

/-- Stands for the bytes that could not be read. -/
def errorMark : String := "[error]"

def errorWords (r : Reading) : List String :=
  match r.fault with
  | some _ => [errorMark]
  | none => []

def shortForm (style : PushStyle) (r : Reading) : String :=
  " ".intercalate (r.tokens.flatMap (Token.words style) ++ r.errorWords)

/-- A space goes before each unit that has text in front of it, so empty units at the start leave
no trace. -/
def oneLine (r : Reading) : String :=
  " ".intercalate ((r.tokens.map Token.unit ++ r.errorWords).dropWhile String.isEmpty)

end Reading

end LockingScript
