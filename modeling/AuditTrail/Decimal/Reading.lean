import AuditTrail.Decimal.Numeral

/-!
# Reading decimals as doubles

A numeral is read by keeping as many of its digits as fit an unsigned 64-bit word, rounding them,
and then applying a rounded power of ten.  Each of these steps rounds, so the word need not be the
one nearest to what is written.
-/

namespace AuditTrail.Decimal.Numeral

/-- Largest unsigned 64-bit word. -/
def wordLimit : Nat := Nat.pow 2 64 - 1

/-- Append whole digits while they fit a word; each digit left out counts as one place. -/
def keepWhole : Nat → List Nat → Nat × Nat
  | kept, [] => (kept, 0)
  | kept, digit :: rest =>
    if 10 * kept + digit ≤ wordLimit then keepWhole (10 * kept + digit) rest
    else (kept, rest.length + 1)

/-- Append fraction digits while they fit a word; each digit appended counts as one place. -/
def keepFraction : Nat → Nat → List Nat → Nat × Nat
  | kept, count, [] => (kept, count)
  | kept, count, digit :: rest =>
    if 10 * kept + digit ≤ wordLimit then keepFraction (10 * kept + digit) (count + 1) rest
    else (kept, count)

/-- Product of a finite magnitude and a power of ten, rounded. -/
def scaleUp (word : Binary64) (power : Nat) : Binary64 :=
  let factor := Binary64.ofRatio false (Nat.pow 10 power) 1
  let (a, b) := word.ratio
  let (c, d) := factor.ratio
  .ofRatio false (a * c) (b * d)

/-- Quotient of a finite magnitude and a power of ten, rounded. -/
def scaleDown (word : Binary64) (power : Nat) : Binary64 :=
  let divisor := Binary64.ofRatio false (Nat.pow 10 power) 1
  let (a, b) := word.ratio
  let (c, d) := divisor.ratio
  .ofRatio false (a * d) (b * c)

/-- Greatest power of ten that is applied in one step. -/
def largestStep : Nat := 308

/-- Divide by `10 ^ power`, at most `largestStep` places at a time, until nothing is left. -/
def scaleDownBy : Nat → Binary64 → Nat → Binary64
  | 0, _, _ => .zero false
  | steps + 1, word, power =>
    if power ≤ largestStep then scaleDown word power
    else if word.magnitude = 0 then word
    else scaleDownBy steps (scaleDown word largestStep) (power - largestStep)

/-- The scaled reading; sizes beyond the largest finite word have none. -/
def scaled? (numeral : Numeral) : Option Binary64 :=
  let (whole, dropped) := keepWhole 0 (digits numeral.whole)
  let (kept, count) := keepFraction whole 0 numeral.fraction
  let place := (dropped : Int) - count + numeral.exponent.getD 0
  let rounded := Binary64.ofRatio false kept 1
  let magnitude? :=
    if 0 ≤ place then
      if kept = 0 then some (.zero false)
      else if largestStep < place.toNat then none
      else
        let product := scaleUp rounded place.toNat
        if product.isInfinite then none else some product
    else some (scaleDownBy 8 rounded (-place).toNat)
  magnitude?.map fun word => .ofMagnitude numeral.negative word.magnitude

end AuditTrail.Decimal.Numeral
