/-!
# Binary floating-point words

A `Binary64` is the 64-bit word of an IEEE 754 double.  The order used here is total: words are
ordered as their values are, negative zero lies below zero, and words that are not numbers lie
outside the infinities on the side of their sign.  Two words that are both not numbers are equal.

Finite words decode to a sign and an exact magnitude `significand * 2 ^ exponent`; rounding goes
the other way, from an exact ratio to the nearest word, ties to the even significand.
-/

namespace AuditTrail

/-- A double, given by its 64 bits. -/
structure Binary64 where
  /-- Sign bit, eleven exponent bits, 52 fraction bits. -/
  bits : UInt64
  deriving DecidableEq, Inhabited

/-- Quotient of two naturals rounded to the nearest natural, a tie to the even one. -/
def roundedQuotient (numerator denominator : Nat) : Nat :=
  let floor := numerator / denominator
  let twiceRest := 2 * (numerator % denominator)
  if denominator < twiceRest || (twiceRest == denominator && floor % 2 == 1) then floor + 1
  else floor

namespace Binary64

/-- The weight of the sign bit. -/
def signBit : Nat := Nat.pow 2 63

/-- The number of words that share a sign and exponent bits, and the weight of the hidden bit. -/
def binade : Nat := Nat.pow 2 52

/-- The word without its sign bit. -/
def magnitude (word : Binary64) : Nat := word.bits.toNat % signBit

/-- Whether the sign bit is set. -/
def isNegative (word : Binary64) : Bool := signBit ≤ word.bits.toNat

/-- The magnitude of the infinities: all exponent bits set, no fraction bit. -/
def infiniteMagnitude : Nat := 2047 * binade

/-- Whether the word is not a number. -/
def isNaN (word : Binary64) : Bool := infiniteMagnitude < word.magnitude

/-- Whether the word is one of the two infinities. -/
def isInfinite (word : Binary64) : Bool := word.magnitude == infiniteMagnitude

/-- Whether the word stands for a real number. -/
def isFinite (word : Binary64) : Bool := word.magnitude < infiniteMagnitude

/-- The word with the given sign and magnitude bits. -/
def ofMagnitude (negative : Bool) (magnitude : Nat) : Binary64 :=
  ⟨UInt64.ofNat (if negative then signBit + magnitude else magnitude)⟩

/-- Zero of the given sign. -/
def zero (negative : Bool) : Binary64 := ofMagnitude negative 0

/-- Infinity of the given sign. -/
def infinity (negative : Bool) : Binary64 := ofMagnitude negative infiniteMagnitude

/-- The quiet word that is not a number, of the given sign. -/
def nan (negative : Bool) : Binary64 := ofMagnitude negative (infiniteMagnitude + binade / 2)

/-- Position of a word in the total order of all words. -/
def rank (word : Binary64) : Int :=
  if word.isNegative then -(word.magnitude : Int) - 1 else word.magnitude

/-- Total comparison, in which all words that are not numbers are equal to each other. -/
def order (left right : Binary64) : Ordering :=
  if left.isNaN && right.isNaN then .eq else compare left.rank right.rank

instance : Ord Binary64 := ⟨order⟩

/-- Significand of a finite word, its hidden bit included. -/
def significand (word : Binary64) : Nat :=
  let fraction := word.magnitude % binade
  if word.magnitude / binade = 0 then fraction else binade + fraction

/-- Exponent of a finite word, so that its magnitude is `significand * 2 ^ exponent`. -/
def exponent (word : Binary64) : Int :=
  (max (word.magnitude / binade) 1 : Nat) - 1075

/-- Whether the next smaller magnitude is only half as far away as the next larger one. -/
def isBinadeStart (word : Binary64) : Bool :=
  word.magnitude % binade == 0 && 1 ≤ word.magnitude / binade

/-- Exponent of the last place that a double keeps of the ratio: 53 binary digits, but none
below `2 ^ -1074`. -/
def lastPlace (numerator denominator : Nat) : Int :=
  let guess : Int := (numerator.log2 : Int) - denominator.log2
  let reached : Bool :=
    if 0 ≤ guess then denominator * Nat.pow 2 guess.toNat ≤ numerator
    else denominator ≤ numerator * Nat.pow 2 (-guess).toNat
  max ((if reached then guess else guess - 1) - 52) (-1074)

/-- Magnitude of the word nearest to a ratio, ties to the even significand.  A ratio beyond the
largest finite word gives the infinite magnitude. -/
def nearestMagnitude (numerator denominator : Nat) : Nat :=
  if numerator = 0 then 0
  else
    let place := lastPlace numerator denominator
    let scaled :=
      if 0 ≤ place then roundedQuotient numerator (denominator * Nat.pow 2 place.toNat)
      else roundedQuotient (numerator * Nat.pow 2 (-place).toNat) denominator
    min ((place + 1074).toNat * binade + scaled) infiniteMagnitude

/-- The word of the given sign nearest to a ratio. -/
def ofRatio (negative : Bool) (numerator denominator : Nat) : Binary64 :=
  ofMagnitude negative (nearestMagnitude numerator denominator)

/-- The magnitude of a finite word as a ratio. -/
def ratio (word : Binary64) : Nat × Nat :=
  if 0 ≤ word.exponent then (word.significand * Nat.pow 2 word.exponent.toNat, 1)
  else (word.significand, Nat.pow 2 (-word.exponent).toNat)

end Binary64
end AuditTrail
