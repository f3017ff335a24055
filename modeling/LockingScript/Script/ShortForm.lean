import LockingScript.Script.Build
import LockingScript.Text.Decimal
import LockingScript.Text.Words

/-!
# Scripts from words

The short form of a script is a text of words. A word is a decimal number, raw bytes in hex after
`0x`, data to push between single quotes, or the name of an opcode; the first of these that fits
decides. Quoted data is the UTF-8 form of the text and so cannot hold a blank.
-/

namespace LockingScript

/-- The text between single quotes. -/
def unquoted? : List Char → Option (List Char)
  | '\'' :: rest => if rest.getLast? = some '\'' then some rest.dropLast else none
  | _ => none

def Step.ofWord (word : List Char) : Except Error Step :=
  match Text.int64? word, word with
  | some n, _ => .ok (.int n)
  | none, '0' :: 'x' :: digits =>
      match Hex.decode digits with
      | .ok bytes => .ok (.raw bytes)
      | .error cause => .error (.invalidHex cause)
  | none, _ =>
      match unquoted? word, Opcode.ofName? (String.ofList word) with
      | some text, _ => .ok (.push (text.flatMap String.utf8EncodeChar))
      | none, some op => .ok (.opcode op)
      | none, none => .error (.badWord (String.ofList word))

namespace Script

def applyWord (s : Script) (word : List Char) : Except Error Script := do
  s.apply (← Step.ofWord word)

/-- Reads words from left to right. The first one that is bad or too big decides the error. -/
def ofShortForm (text : String) : Except Error Script :=
  (Text.words text.toList).foldlM applyWord empty

end Script

end LockingScript
