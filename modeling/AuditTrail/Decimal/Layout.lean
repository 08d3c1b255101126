import AuditTrail.Decimal.Numeral
import AuditTrail.Decimal.Shortest

/-!
# Layouts of shortest decimals

A layout says how the shortest digits of a word are written: for which sizes the number is written
out, whether a whole number shows a zero behind the point, and how an exponent looks.
-/

namespace AuditTrail.Decimal

/-- The decisions of one written form of doubles. -/
structure Layout where
  /-- Choice between two equally near shortest decimals. -/
  tie : Tie
  /-- Least and greatest exponent of the leading digit for which no exponent is written; without
  bounds none ever is. -/
  positional : Option (Int × Int)
  /-- Whether a number written out shows at least one digit behind the point. -/
  pointZero : Bool
  /-- Whether a non-negative exponent carries a plus sign. -/
  plus : Bool
  deriving DecidableEq

namespace Layout

/-- Number of digits, at least one. -/
def count (n : Nat) : Nat := (digits n).length

/-- The digits of `n` at `places` places, filled up with leading zeros. -/
def padded (places n : Nat) : List Nat :=
  let written := digits n
  List.replicate (places - written.length) 0 ++ written

/-- The numeral that writes a number out. -/
def writtenOut (layout : Layout) (negative : Bool) (scaled : Scaled) : Numeral :=
  let fraction :=
    if 0 ≤ scaled.place then []
    else
      let places := (-scaled.place).toNat
      padded places (scaled.digits % Nat.pow 10 places)
  { negative
    whole :=
      if 0 ≤ scaled.place then scaled.digits * Nat.pow 10 scaled.place.toNat
      else scaled.digits / Nat.pow 10 (-scaled.place).toNat
    fraction := if fraction.isEmpty && layout.pointZero then [0] else fraction
    exponent := none }

/-- The numeral with one digit before the point and an exponent. -/
def withExponent (negative : Bool) (scaled : Scaled) : Numeral :=
  let places := count scaled.digits - 1
  { negative
    whole := scaled.digits / Nat.pow 10 places
    fraction := if places = 0 then [] else padded places (scaled.digits % Nat.pow 10 places)
    exponent := some (scaled.place + places) }

/-- The numeral of a finite word. -/
def numeral (layout : Layout) (word : Binary64) : Numeral :=
  if word.magnitude = 0 then layout.writtenOut word.isNegative ⟨0, 0⟩
  else
    let scaled := shortest layout.tie word
    let leading := scaled.place + (count scaled.digits - 1 : Nat)
    let isPositional :=
      match layout.positional with
      | none => true
      | some (least, greatest) => least ≤ leading && leading ≤ greatest
    if isPositional then layout.writtenOut word.isNegative scaled
    else withExponent word.isNegative scaled

/-- The text of any word: the numeral of a finite one, else the name of what it is. -/
def text (layout : Layout) (word : Binary64) : String :=
  if word.isNaN then "NaN"
  else if word.isInfinite then if word.isNegative then "-inf" else "inf"
  else (layout.numeral word).render layout.plus

end Layout
end AuditTrail.Decimal
