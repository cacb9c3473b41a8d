import DoublePushout.Text.Printed

/-!
# `DoublePushout.Text.Quoted`: quoted text in messages

A message that shows a piece of the input puts it between quotation marks, in a form that fits on
a line: the quotation mark, the backslash and the commonest control characters have escapes of two
characters, and any other character that does not print by itself is given by its number.
-/

set_option autoImplicit false

namespace DoublePushout.Text

/-- A number in hexadecimal, in lower case and without leading zeros. -/
def hexadecimal (n : Nat) : String := String.ofList (Nat.toDigits 16 n)

/-- A character as a message shows it. -/
def shown (c : Char) : String :=
  if c = '"' then "\\\""
  else if c = '\\' then "\\\\"
  else if c = '\n' then "\\n"
  else if c = '\r' then "\\r"
  else if c = '\t' then "\\t"
  else if c = '\x00' then "\\0"
  else if isPrinted c then String.singleton c
  else "\\u\x7b" ++ hexadecimal c.toNat ++ "\x7d"

/-- A text as a message shows it. -/
def quoted (s : String) : String := "\"" ++ String.join (s.toList.map shown) ++ "\""

end DoublePushout.Text
