import AuditTrail.Binary64

/-!
# Shortest decimal digits

The shortest digits of a finite non-zero word are the fewest decimal digits of a number that
rounds to the word, and among those of the same count the digits of the number nearest to it.

The word is `4 * significand` quarter places and the numbers that round to it reach half a place
up and half a place down (a quarter place where a binade starts); the ends belong to them exactly
when the significand is even.  All comparisons are between exact naturals.
-/

namespace AuditTrail.Decimal

/-- Which of two equally near candidates is taken. -/
inductive Tie where
  /-- The larger one. -/
  | up
  /-- The one whose last digit is even. -/
  | even
  deriving DecidableEq

/-- Digits and the power of ten of their last place: the number `digits * 10 ^ place`. -/
structure Scaled where
  /-- The digits as a natural. -/
  digits : Nat
  /-- Exponent of the last digit. -/
  place : Int
  deriving DecidableEq

/-- The numbers that round to a word, as naturals over a common denominator. -/
structure RoundingInterval where
  /-- The word itself. -/
  value : Nat
  /-- Lower end. -/
  lower : Nat
  /-- Upper end. -/
  upper : Nat
  /-- Common denominator. -/
  denominator : Nat
  /-- Whether the ends belong to the interval. -/
  closed : Bool

namespace RoundingInterval

/-- The interval of a finite word. -/
def ofWord (word : Binary64) : RoundingInterval :=
  let quarter := word.exponent - 2
  let scale := if 0 ≤ quarter then Nat.pow 2 quarter.toNat else 1
  let value := 4 * word.significand
  { value := value * scale
    lower := (value - if word.isBinadeStart then 1 else 2) * scale
    upper := (value + 2) * scale
    denominator := if 0 ≤ quarter then 1 else Nat.pow 2 (-quarter).toNat
    closed := word.significand % 2 == 0 }

/-- Whether `numerator / denominator` rounds to the word. -/
def admits (interval : RoundingInterval) (numerator denominator : Nat) : Bool :=
  let here := numerator * interval.denominator
  let lower := interval.lower * denominator
  let upper := interval.upper * denominator
  if interval.closed then lower ≤ here && here ≤ upper else lower < here && here < upper

/-- The best candidate with its last digit at `place`, if one of the two neighbours of the word on
that decimal grid rounds to it. -/
def candidate? (interval : RoundingInterval) (tie : Tie) (place : Int) : Option Nat :=
  let factor := if 0 ≤ place then Nat.pow 10 place.toNat else 1
  let divisor := if 0 ≤ place then 1 else Nat.pow 10 (-place).toNat
  let value := interval.value * divisor
  let step := factor * interval.denominator
  let low := value / step
  let rest := value % step
  let lowFits := interval.admits (low * factor) divisor
  let highFits := interval.admits ((low + 1) * factor) divisor
  if lowFits && highFits then
    if 2 * rest < step then some low
    else if step < 2 * rest then some (low + 1)
    else
      match tie with
      | .up => some (low + 1)
      | .even => some (if low % 2 = 0 then low else low + 1)
  else if lowFits then some low
  else if highFits then some (low + 1)
  else none

/-- The first decimal grid, from `place` downward, on which a candidate exists. -/
def search (interval : RoundingInterval) (tie : Tie) : Nat → Int → Scaled
  | 0, place => ⟨interval.value / interval.denominator, place⟩
  | grids + 1, place =>
    match interval.candidate? tie place with
    | some digits => ⟨digits, place⟩
    | none => interval.search tie grids (place - 1)

end RoundingInterval

/-- An exponent of ten that is at least the one of the leading digit of a word. -/
def leadingBound (word : Binary64) : Int :=
  ((word.exponent + word.significand.log2 + 1) * 30103 / 100000) + 1

/-- Move trailing zeros of the digits into the place. -/
def Scaled.normalize : Nat → Scaled → Scaled
  | 0, scaled => scaled
  | fuel + 1, scaled =>
    if scaled.digits % 10 = 0 ∧ scaled.digits ≠ 0 then
      normalize fuel ⟨scaled.digits / 10, scaled.place + 1⟩
    else scaled

/-- The shortest digits of a finite non-zero word.  The grids tried start above the leading digit
and end below the seventeenth. -/
def shortest (tie : Tie) (word : Binary64) : Scaled :=
  ((RoundingInterval.ofWord word).search tie 21 (leadingBound word)).normalize 21

end AuditTrail.Decimal
