import AuditTrail.Text.Unprintable

/-!
# Quoted text

A text is quoted between double quotes.  Quotes and backslashes get a backslash in front, tab,
carriage return, line feed and null have letters of their own, and every other character without a
printed shape is written by its number.
-/

namespace AuditTrail.Text

/-- A code point in braces, in lower-case hexadecimal without leading zeros. -/
def escapedNumber (code : Nat) : String :=
  "\\u\x7b" ++ String.ofList (Nat.toDigits 16 code) ++ "\x7d"

/-- One character of a quoted text. -/
def quotedChar (c : Char) : String :=
  if c = '\t' then "\\t"
  else if c = '\r' then "\\r"
  else if c = '\n' then "\\n"
  else if c = '\x00' then "\\0"
  else if c = '"' then "\\\""
  else if c = '\\' then "\\\\"
  else if isUnprintable c then escapedNumber c.toNat
  else c.toString

/-- A text between double quotes. -/
def quoted (text : String) : String :=
  "\"" ++ String.join (text.toList.map quotedChar) ++ "\""

end AuditTrail.Text
