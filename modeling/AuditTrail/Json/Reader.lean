import AuditTrail.Json

/-!
# Reading documents

A text is a document with blanks around its tokens and nothing behind it.  Strings hold no bare
control characters; an escaped pair of surrogates is one character.  Nesting is not limited here.
-/

namespace AuditTrail.Json

/-- Whether a character is a blank between tokens. -/
def isBlank (c : Char) : Bool := c == ' ' || c == '\n' || c == '\t' || c == '\r'

/-- The text from its first token on. -/
def skipBlanks (text : List Char) : List Char := text.dropWhile isBlank

/-- What is left of a text behind an expected beginning. -/
def expect? : List Char → List Char → Option (List Char)
  | [], text => some text
  | c :: expected, d :: text => if c = d then expect? expected text else none
  | _ :: _, [] => none

/-- The value of a hexadecimal digit of either case. -/
def hexDigit? (c : Char) : Option Nat :=
  if '0' ≤ c ∧ c ≤ '9' then some (c.toNat - '0'.toNat)
  else if 'a' ≤ c ∧ c ≤ 'f' then some (c.toNat - 'a'.toNat + 10)
  else if 'A' ≤ c ∧ c ≤ 'F' then some (c.toNat - 'A'.toNat + 10)
  else none

/-- The code unit of hexadecimal digits. -/
def unit? (places : List Char) : Option Nat :=
  places.foldlM (fun code c => (hexDigit? c).map fun digit => 16 * code + digit) 0

/-- The character that a one-letter escape stands for. -/
def escaped? (c : Char) : Option Char :=
  if c = '"' ∨ c = '\\' ∨ c = '/' then some c
  else if c = 'b' then some '\x08'
  else if c = 'f' then some '\x0c'
  else if c = 'n' then some '\n'
  else if c = 'r' then some '\r'
  else if c = 't' then some '\t'
  else none

/-- A piece of a string: a character, or the escape of one half of a surrogate pair. -/
inductive Piece where
  /-- A character. -/
  | char (c : Char)
  /-- The first half of a pair. -/
  | high (code : Nat)
  /-- The second half of a pair. -/
  | low (code : Nat)

/-- The piece that an escaped code unit stands for. -/
def Piece.ofUnit (code : Nat) : Piece :=
  if 0xD800 ≤ code ∧ code < 0xDC00 then high code
  else if 0xDC00 ≤ code ∧ code < 0xE000 then low code
  else char (Char.ofNat code)

/-- The pieces of a string up to its closing quote, and the text behind it. -/
def readPieces : List Char → Option (List Piece × List Char)
  | [] => none
  | '"' :: rest => some ([], rest)
  | '\\' :: 'u' :: a :: b :: c :: d :: rest => do
    let code ← unit? [a, b, c, d]
    let (pieces, rest) ← readPieces rest
    some (.ofUnit code :: pieces, rest)
  | '\\' :: mark :: rest => do
    let c ← escaped? mark
    let (pieces, rest) ← readPieces rest
    some (.char c :: pieces, rest)
  | c :: rest =>
    if c.toNat < 0x20 then none
    else do
      let (pieces, rest) ← readPieces rest
      some (.char c :: pieces, rest)

/-- The characters of pieces; none if half of a pair stands alone. -/
def joinPieces : List Piece → Option (List Char)
  | [] => some []
  | .char c :: rest => (joinPieces rest).map (c :: ·)
  | .high code :: .low code' :: rest =>
    (joinPieces rest).map (Char.ofNat (0x10000 + (code - 0xD800) * 0x400 + (code' - 0xDC00)) :: ·)
  | .high _ :: _ => none
  | .low _ :: _ => none

/-- The text of a string behind its opening quote, none for a garbled one, and what follows. -/
def readText (text : List Char) : Option (Option String × List Char) := do
  let (pieces, rest) ← readPieces text
  some ((joinPieces pieces).map String.ofList, rest)

/-- The document of a string. -/
def ofText : Option String → Json
  | some text => str text
  | none => garbled

/-- The document of an object whose names may be garbled. -/
def ofFields (fields : List (Option String × Json)) : Json :=
  match fields.mapM fun field => field.1.map fun name => (name, field.2) with
  | some fields => obj fields
  | none => garbled

mutual

/-- One document at the front of a text, and what follows it.  The fuel bounds the nesting and the
number of elements on one level; twice the length of the text is always enough. -/
def readValue : Nat → List Char → Option (Json × List Char)
  | 0, _ => none
  | fuel + 1, text =>
    match skipBlanks text with
    | '[' :: rest =>
      match skipBlanks rest with
      | ']' :: rest => some (arr [], rest)
      | rest => (readItems fuel rest).map fun (items, rest) => (arr items, rest)
    | '\x7b' :: rest =>
      match skipBlanks rest with
      | '\x7d' :: rest => some (obj [], rest)
      | rest => (readFields fuel rest).map fun (fields, rest) => (ofFields fields, rest)
    | '"' :: rest => (readText rest).map fun (text, rest) => (ofText text, rest)
    | 'n' :: rest => (expect? ['u', 'l', 'l'] rest).map fun rest => (null, rest)
    | 't' :: rest => (expect? ['r', 'u', 'e'] rest).map fun rest => (bool true, rest)
    | 'f' :: rest => (expect? ['a', 'l', 's', 'e'] rest).map fun rest => (bool false, rest)
    | text => (Decimal.Numeral.read? text).map fun (numeral, rest) => (num numeral, rest)

/-- The elements of an array that has some, up to and with its bracket. -/
def readItems : Nat → List Char → Option (List Json × List Char)
  | 0, _ => none
  | fuel + 1, text => do
    let (item, rest) ← readValue fuel text
    match skipBlanks rest with
    | ',' :: rest =>
      let (items, rest) ← readItems fuel rest
      some (item :: items, rest)
    | ']' :: rest => some ([item], rest)
    | _ => none

/-- The fields of an object that has some, up to and with its brace. -/
def readFields : Nat → List Char → Option (List (Option String × Json) × List Char)
  | 0, _ => none
  | fuel + 1, text =>
    match skipBlanks text with
    | '"' :: rest => do
      let (name, rest) ← readText rest
      let rest ← expect? [':'] (skipBlanks rest)
      let (value, rest) ← readValue fuel rest
      match skipBlanks rest with
      | ',' :: rest =>
        let (fields, rest) ← readFields fuel rest
        some ((name, value) :: fields, rest)
      | '\x7d' :: rest => some ([(name, value)], rest)
      | _ => none
    | _ => none

end

/-- The document that a text is. -/
def read? (text : String) : Option Json :=
  let chars := text.toList
  match readValue (2 * chars.length + 1) chars with
  | some (json, rest) => if skipBlanks rest = [] then some json else none
  | none => none

end AuditTrail.Json
