import AuditTrail.Value

/-!
# Class definitions

A registry is a list of class definitions.  It says which classes are entities, value objects,
values, custom or ignored, which properties the first two have, and how values are compared.
-/

namespace AuditTrail.Schema

/-- Declared type of a property. -/
inductive TypeExpr where
  /-- A built-in value type or a class. -/
  | named (name : String)
  /-- Elements in order. -/
  | list (item : TypeExpr)
  /-- Elements without order. -/
  | set (item : TypeExpr)
  /-- Elements at fixed positions. -/
  | array (item : TypeExpr)
  /-- Values under keys. -/
  | map (key value : TypeExpr)
  deriving DecidableEq, Inhabited

/-- Declaration of one property. -/
structure PropertyDecl where
  /-- Name of the property. -/
  name : String
  /-- Its declared type. -/
  type : TypeExpr
  /-- Whether it is flagged as the identity of its entity. -/
  isId : Bool
  /-- Whether it is left out of graphs and comparisons. -/
  isIgnored : Bool
  deriving DecidableEq, Inhabited

/-- Equality and printing of the scalars of a value class. -/
structure ValueRule where
  /-- Whether two scalars count as equal. -/
  equal : Scalar → Scalar → Bool
  /-- The printed form attached to changes. -/
  display : Scalar → String

/-- Equality of the captured values of a custom class. -/
abbrev CustomRule := Captured → Captured → Bool

/-- Declaration of a class whose instances become nodes. -/
structure ObjectDecl where
  /-- Name of the class. -/
  className : String
  /-- Name shown in ids and snapshots, if other than the class name. -/
  typeName : Option String
  /-- Declared properties in order. -/
  properties : List PropertyDecl
  /-- Names of further properties to leave out. -/
  ignored : List String
  deriving DecidableEq, Inhabited

namespace ObjectDecl

/-- Name shown in ids and snapshots. -/
def shownName (decl : ObjectDecl) : String := decl.typeName.getD decl.className

/-- The declarations that are neither flagged as ignored nor named as ignored. -/
def mapped (decl : ObjectDecl) : List PropertyDecl :=
  decl.properties.filter fun property =>
    !property.isIgnored && !decl.ignored.contains property.name

/-- The names of the properties flagged as identity. -/
def flagged (decl : ObjectDecl) : List String :=
  (decl.properties.filter (·.isId)).map (·.name)

end ObjectDecl

/-- Definition of one class. -/
inductive Definition where
  /-- Instances are named by their type and an identity property, named here or flagged. -/
  | entity (decl : ObjectDecl) (idProperty : Option String)
  /-- Instances are named by their owner and a path. -/
  | valueObject (decl : ObjectDecl)
  /-- Scalars, compared natively unless a rule is given. -/
  | value (className : String) (rule : Option ValueRule)
  /-- Instances and properties of the class are skipped. -/
  | ignored (className : String)
  /-- Captured values compared by a rule. -/
  | custom (className : String) (rule : CustomRule)

/-- Name of the defined class. -/
def Definition.className : Definition → String
  | .entity decl _ | .valueObject decl => decl.className
  | .value className _ | .ignored className | .custom className _ => className

end AuditTrail.Schema
