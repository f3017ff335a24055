/-!
# Quoted characters

A character given by its code below 256, written between single quotes so that it can stand in
a message whatever it is.
-/

namespace LockingScript.Text

/-- Codes that show nothing by themselves: the control characters, the no-break space and the
soft hyphen. -/
def isInvisible (code : UInt8) : Bool :=
  code < 0x20 || (0x7f ≤ code && code ≤ 0xa0) || code == 0xad

/-- NUL, tab, line feed, carriage return, the quote and the backslash have short escapes; other
invisible characters are written by their number in hex. -/
def escaped (code : UInt8) : String :=
  if code = 0x00 then "\\0"
  else if code = 0x09 then "\\t"
  else if code = 0x0a then "\\n"
  else if code = 0x0d then "\\r"
  else if code = 0x27 then "\\'"
  else if code = 0x5c then "\\\\"
  else if isInvisible code then "\\u\x7b" ++ String.ofList (Nat.toDigits 16 code.toNat) ++ "\x7d"
  else String.singleton (Char.ofNat code.toNat)

def quoted (code : UInt8) : String := "'" ++ escaped code ++ "'"

example : quoted 0x7f = "'\\u\x7b7f\x7d'" := by decide

example : quoted 0xc3 = "'Ã'" := by decide

end LockingScript.Text
