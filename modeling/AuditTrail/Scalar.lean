import AuditTrail.Decimal.Layout
import AuditTrail.Text.Quoted

/-!
# Scalars

Leaf values, compared as a whole and never followed.  The order puts booleans before integers,
integers before floats and floats before texts; floats follow the total order of their words.
Equality of scalars is equality in this order, so two floats that are not numbers are equal.
-/

namespace AuditTrail

/-- A leaf value. -/
inductive Scalar where
  /-- A truth value. -/
  | bool (value : Bool)
  /-- An integer. -/
  | int (value : Int)
  /-- A double, kept as its word. -/
  | float (word : Binary64)
  /-- A text. -/
  | text (value : String)
  deriving DecidableEq, Inhabited

namespace Scalar

/-- Place of a scalar's kind among the kinds. -/
def kindRank : Scalar → Nat
  | bool _ => 0
  | int _ => 1
  | float _ => 2
  | text _ => 3

/-- Order of scalars: by kind, then by value. -/
def order : Scalar → Scalar → Ordering
  | bool a, bool b => compare a b
  | int a, int b => compare a b
  | float a, float b => compare a b
  | text a, text b => compare a b
  | a, b => compare a.kindRank b.kindRank

instance : Ord Scalar := ⟨order⟩

/-- Scalars are equal when neither comes before the other. -/
def same (left right : Scalar) : Bool := compare left right == .eq

instance : BEq Scalar := ⟨same⟩

/-- Floats are written out in full, with neither an exponent nor a zero behind the point. -/
def plainFloat : Decimal.Layout where
  tie := .up
  positional := none
  pointZero := false
  plus := false

/-- Floats in content texts show at least one digit behind the point and have an exponent from
`10 ^ 16` upward and below `10 ^ -4`. -/
def contentFloat : Decimal.Layout where
  tie := .up
  positional := some (-4, 15)
  pointZero := true
  plus := false

/-- The printed form. -/
def display : Scalar → String
  | bool value => if value then "true" else "false"
  | int value => (Decimal.Numeral.ofInt value).render false
  | float word => plainFloat.text word
  | text value => value

/-- The form in content texts, which tells apart scalars of different kinds. -/
def content : Scalar → String
  | bool value => "Bool(" ++ (if value then "true" else "false") ++ ")"
  | int value => "Int(" ++ (Decimal.Numeral.ofInt value).render false ++ ")"
  | float word => "Float(" ++ contentFloat.text word ++ ")"
  | text value => "Text(" ++ Text.quoted value ++ ")"

end Scalar
end AuditTrail
