import AuditTrail.Binary64

/-!
# Decimal numerals

A numeral is a number as it is written: a sign, a whole part, fraction digits and perhaps an
exponent.  Reading gives back the written parts; what a numeral is worth is decided elsewhere.
-/

namespace AuditTrail.Decimal

/-- A number as written, such as `-12.50e+3`. -/
structure Numeral where
  /-- Whether a minus sign is written. -/
  negative : Bool
  /-- The digits before the point. -/
  whole : Nat
  /-- The digits after the point, first digit first; empty where no point is written. -/
  fraction : List Nat
  /-- The exponent of ten, where one is written. -/
  exponent : Option Int
  deriving DecidableEq, Inhabited

/-- The decimal digits of a natural, most significant first; zero has one digit. -/
def digits (n : Nat) : List Nat := (Nat.toDigits 10 n).map fun c => c.toNat - '0'.toNat

/-- The natural with the given digits, most significant first. -/
def ofDigits (places : List Nat) : Nat := places.foldl (fun n digit => 10 * n + digit) 0

/-- The character of a digit. -/
def digitChar (digit : Nat) : Char := Char.ofNat ('0'.toNat + digit)

/-- The digit that a character writes. -/
def digit? (c : Char) : Option Nat :=
  if '0' ≤ c ∧ c ≤ '9' then some (c.toNat - '0'.toNat) else none

/-- The longest run of digits at the front, and what follows it. -/
def spanDigits : List Char → List Nat × List Char
  | [] => ([], [])
  | c :: rest =>
    match digit? c with
    | none => ([], c :: rest)
    | some digit =>
      let (places, rest) := spanDigits rest
      (digit :: places, rest)

namespace Numeral

/-- The integer numeral of an integer. -/
def ofInt (n : Int) : Numeral := ⟨n < 0, n.natAbs, [], none⟩

/-- Whether neither a point nor an exponent is written. -/
def isWhole (numeral : Numeral) : Bool := numeral.fraction.isEmpty && numeral.exponent.isNone

/-- The written form; `plus` asks for a plus sign before a non-negative exponent. -/
def render (plus : Bool) (numeral : Numeral) : String :=
  let sign := if numeral.negative then "-" else ""
  let fraction :=
    if numeral.fraction.isEmpty then ""
    else "." ++ String.ofList (numeral.fraction.map digitChar)
  let exponent :=
    match numeral.exponent with
    | none => ""
    | some e =>
      let sign := if e < 0 then "-" else if plus then "+" else ""
      "e" ++ sign ++ toString e.natAbs
  sign ++ toString numeral.whole ++ fraction ++ exponent

/-- Fraction digits behind a point, at least one of them. -/
def readFraction? : List Char → Option (List Nat × List Char)
  | '.' :: rest =>
    match spanDigits rest with
    | ([], _) => none
    | (places, rest) => some (places, rest)
  | rest => some ([], rest)

/-- An exponent behind its mark, with an optional sign and at least one digit. -/
def readExponent? : List Char → Option (Option Int × List Char)
  | mark :: rest =>
    if mark = 'e' ∨ mark = 'E' then
      let (negative, rest) :=
        match rest with
        | '+' :: rest => (false, rest)
        | '-' :: rest => (true, rest)
        | rest => (false, rest)
      match spanDigits rest with
      | ([], _) => none
      | (places, rest) =>
        let size : Int := ofDigits places
        some (some (if negative then -size else size), rest)
    else some (none, mark :: rest)
  | [] => some (none, [])

/-- A numeral at the front of the text: an optional minus sign, whole digits of which only a lone
zero starts with zero, then perhaps a fraction and an exponent. -/
def read? (text : List Char) : Option (Numeral × List Char) := do
  let (negative, rest) :=
    match text with
    | '-' :: rest => (true, rest)
    | rest => (false, rest)
  let (places, rest) := spanDigits rest
  match places with
  | [] => none
  | 0 :: _ :: _ => none
  | _ => pure ()
  let (fraction, rest) ← readFraction? rest
  let (exponent, rest) ← readExponent? rest
  some (⟨negative, ofDigits places, fraction, exponent⟩, rest)

end Numeral
end AuditTrail.Decimal
