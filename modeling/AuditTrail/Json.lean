import AuditTrail.Decimal.Numeral

/-!
# JSON documents

A document keeps numbers as they are written and the fields of objects in order, repeated names
included.  What numbers are worth and which fields count is decided by those who read documents.
-/

namespace AuditTrail

/-- A JSON document. -/
inductive Json where
  /-- No value. -/
  | null
  /-- A truth value. -/
  | bool (value : Bool)
  /-- A number as written. -/
  | num (numeral : Decimal.Numeral)
  /-- A text. -/
  | str (text : String)
  /-- Documents in order. -/
  | arr (items : List Json)
  /-- Documents under names, in order. -/
  | obj (fields : List (String × Json))
  /-- A well-formed string, or an object with such a name, in which half of a surrogate pair is
  escaped without the other half.  No text stands for it. -/
  | garbled
  deriving Inhabited

namespace Json

/-- The document of an integer. -/
def ofInt (n : Int) : Json := num (.ofInt n)

/-- The document of a natural. -/
def ofNat (n : Nat) : Json := ofInt n

end Json
end AuditTrail
