import AuditTrail.Schema.TypeTable

/-!
# Descriptions of types

Descriptions show a value together with the name of what it is: `Name(part)` for a tagged value,
and the name with labelled parts in braces for a record.  Rules of comparison cannot be shown.
-/

namespace AuditTrail.Describe

open Schema

/-- A name with parts in parentheses. -/
def tagged (name : String) (parts : List String) : String :=
  name ++ "(" ++ ", ".intercalate parts ++ ")"

/-- A name with labelled parts in braces; `isOpen` marks that not all parts are shown. -/
def record (name : String) (parts : List (String × String)) (isOpen : Bool) : String :=
  let shown := parts.map fun (label, part) => label ++ ": " ++ part
  let shown := if isOpen then shown ++ [".."] else shown
  name ++ " \x7b " ++ ", ".intercalate shown ++ " \x7d"

/-- Descriptions in brackets. -/
def listed (parts : List String) : String := "[" ++ ", ".intercalate parts ++ "]"

/-- A truth value. -/
def bool (value : Bool) : String := if value then "true" else "false"

/-- A text that may be missing. -/
def optionalText : Option String → String
  | none => "None"
  | some text => tagged "Some" [Text.quoted text]

/-- A declared type. -/
def typeExpr : TypeExpr → String
  | .named name => tagged "Named" [Text.quoted name]
  | .list item => tagged "List" [typeExpr item]
  | .set item => tagged "Set" [typeExpr item]
  | .array item => tagged "Array" [typeExpr item]
  | .map key value => tagged "Map" [typeExpr key, typeExpr value]

/-- A property declaration. -/
def propertyDecl (decl : PropertyDecl) : String :=
  record "PropertyDecl"
    [("name", Text.quoted decl.name), ("type_ref", typeExpr decl.type), ("id", bool decl.isId),
      ("ignored", bool decl.isIgnored)]
    false

/-- The parts that declarations of entities and of value objects share, before and after the
identity property. -/
def objectParts (decl : ObjectDecl) (identity : List (String × String)) :
    List (String × String) :=
  [("class", Text.quoted decl.className), ("type_name", optionalText decl.typeName)] ++ identity ++
    [("properties", listed (decl.properties.map propertyDecl)),
      ("ignored_properties", listed (decl.ignored.map Text.quoted))]

/-- A class definition. -/
def definition : Definition → String
  | .entity decl idProperty =>
    tagged "Entity"
      [record "EntityDefinition" (objectParts decl [("id_property", optionalText idProperty)])
        false]
  | .valueObject decl =>
    tagged "ValueObject" [record "ValueObjectDefinition" (objectParts decl []) false]
  | .value className rule =>
    tagged "Value"
      [record "ValueDefinition"
        [("class", Text.quoted className), ("custom_comparator", bool rule.isSome)] false]
  | .ignored className => record "Ignored" [("class", Text.quoted className)] false
  | .custom className _ =>
    tagged "Custom" [record "CustomDefinition" [("class", Text.quoted className)] true]

/-- The name of a kind of nodes. -/
def managedKind : ManagedKind → String
  | .entity => "Entity"
  | .valueObject => "ValueObject"

/-- The name of a kind of collections. -/
def collectionKind : CollectionKind → String
  | .list => "List"
  | .set => "Set"
  | .array => "Array"

/-- A container with the types of its items and, for maps, of its keys. -/
def container (kind item : String) (key : Option String) : String :=
  let key :=
    match key with
    | none => "None"
    | some key => tagged "Some" [key]
  tagged "Container"
    [record "ContainerType" [("kind", kind), ("item", item), ("key", key)] false]

/-- A classified type. -/
def classified : Classified → String
  | .value name rule =>
    tagged "Value"
      [record "ValueType"
        [("name", Text.quoted name), ("custom_comparator", bool rule.isSome)] false]
  | .reference kind => tagged "Reference" [managedKind kind]
  | .collection kind item => container (collectionKind kind) (classified item) none
  | .mapping key item => container "Map" (classified item) (some (classified key))
  | .custom _ => "Custom"
  | .ignored => "Ignored"
  | .unknown name => tagged "Unknown" [Text.quoted name]

/-- The sizes of a type table. -/
def typeTable (table : TypeTable) : String :=
  record "TypeMapper"
    [("managed", toString table.managed.length), ("values", toString table.values.length),
      ("custom", toString table.customs.length), ("ignored", toString table.ignored.length)]
    false

end AuditTrail.Describe
