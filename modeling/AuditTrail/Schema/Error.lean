import AuditTrail.Text.Quoted

/-!
# Schema errors

Why a registry is refused, and why a class cannot be used as an object.
-/

namespace AuditTrail

/-- A fault of the declared types or of their use. -/
inductive SchemaError where
  /-- An entity neither names nor flags an identity property. -/
  | missingIdProperty (className : String)
  /-- An entity flags several identity properties. -/
  | ambiguousIdProperty (className : String) (candidates : List String)
  /-- The identity property is not declared, or is left out. -/
  | unknownIdProperty (className property : String)
  /-- The declared type of the identity property holds no scalars. -/
  | nonScalarIdProperty (className property : String)
  /-- A class is defined twice. -/
  | duplicateClass (className : String)
  /-- Two classes have the same shown name. -/
  | duplicateTypeName (typeName first second : String)
  /-- A class has no definition. -/
  | unregisteredClass (className : String)
  /-- A class is defined, but its instances are not nodes. -/
  | notManaged (className : String)
  deriving DecidableEq

namespace SchemaError

/-- Quoted texts in brackets, separated by commas. -/
def quotedList (texts : List String) : String :=
  "[" ++ ", ".intercalate (texts.map Text.quoted) ++ "]"

/-- The wording of an error. -/
def message : SchemaError → String
  | missingIdProperty className => "entity " ++ className ++ " has no identity property"
  | ambiguousIdProperty className candidates =>
    "entity " ++ className ++ " has ambiguous identity properties: " ++ quotedList candidates
  | unknownIdProperty className property =>
    "entity " ++ className ++ " names unknown identity property " ++ property
  | nonScalarIdProperty className property =>
    "identity property " ++ className ++ "." ++ property ++ " must be a scalar"
  | duplicateClass className => "class " ++ className ++ " is declared more than once"
  | duplicateTypeName typeName first second =>
    "type name " ++ typeName ++ " is claimed by both " ++ first ++ " and " ++ second
  | unregisteredClass className => "class " ++ className ++ " is not registered"
  | notManaged className => "class " ++ className ++ " is not an Entity or ValueObject"

end SchemaError
end AuditTrail
