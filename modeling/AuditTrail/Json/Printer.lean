import AuditTrail.Json

/-!
# Printing documents

Documents are printed without blanks.  Quotes, backslashes and control characters are escaped, and
all other characters stand for themselves.
-/

namespace AuditTrail.Json

/-- Four hexadecimal digits of a code unit. -/
def hexUnit (code : Nat) : List Char :=
  [code / 4096 % 16, code / 256 % 16, code / 16 % 16, code % 16].map Nat.digitChar

/-- One character of a string. -/
def writeChar (c : Char) : List Char :=
  if c = '"' then ['\\', '"']
  else if c = '\\' then ['\\', '\\']
  else if c = '\x08' then ['\\', 'b']
  else if c = '\x0c' then ['\\', 'f']
  else if c = '\n' then ['\\', 'n']
  else if c = '\r' then ['\\', 'r']
  else if c = '\t' then ['\\', 't']
  else if c.toNat < 0x20 then '\\' :: 'u' :: hexUnit c.toNat
  else [c]

/-- A text between quotes. -/
def writeText (text : String) : List Char := '"' :: (text.toList.flatMap writeChar ++ ['"'])

mutual

/-- The characters of a document. -/
def write : Json → List Char
  | null => ['n', 'u', 'l', 'l']
  | bool true => ['t', 'r', 'u', 'e']
  | bool false => ['f', 'a', 'l', 's', 'e']
  | num numeral => (numeral.render true).toList
  | str text => writeText text
  | arr items => '[' :: (writeItems items ++ [']'])
  | obj fields => '\x7b' :: (writeFields fields ++ ['\x7d'])
  | garbled => '"' :: '\\' :: 'u' :: (hexUnit 0xD800 ++ ['"'])

/-- The characters of array elements, separated by commas. -/
def writeItems : List Json → List Char
  | [] => []
  | [item] => item.write
  | item :: rest => item.write ++ ',' :: writeItems rest

/-- The characters of object fields, separated by commas. -/
def writeFields : List (String × Json) → List Char
  | [] => []
  | [(name, value)] => writeText name ++ ':' :: value.write
  | (name, value) :: rest => writeText name ++ ':' :: (value.write ++ ',' :: writeFields rest)

end

/-- The text of a document. -/
def print (json : Json) : String := String.ofList json.write

end AuditTrail.Json
