-- SUMMARY: Text in double quotes, with escapes for what would not be visible.
import LinearProbing.Text.Visible

/-! # Quoted text

A text in double quotes. Quotes and backslashes are marked with a backslash, the common control
characters have a letter, and every other character that is not visible on its own is given by its
hexadecimal number.
-/

namespace LinearProbing.Text

/-- The hexadecimal digits of a character's number, in braces. -/
def numbered (c : Char) : String :=
  "\\u\x7b" ++ String.ofList (Nat.toDigits 16 c.toNat) ++ "\x7d"

/-- A character as it stands between double quotes. -/
def quoteChar (c : Char) : String :=
  if c = '"' then "\\\""
  else if c = '\\' then "\\\\"
  else if c = '\x00' then "\\0"
  else if c = '\t' then "\\t"
  else if c = '\n' then "\\n"
  else if c = '\r' then "\\r"
  else if isVisible c then c.toString
  else numbered c

/-- The text in double quotes. -/
def quote (s : String) : String :=
  "\"" ++ String.join (s.toList.map quoteChar) ++ "\""

end LinearProbing.Text
