import AuditTrail.Schema.Definition
import AuditTrail.Schema.Error

/-!
# Type tables

A type table is what an accepted registry comes to: the managed types, whose instances are nodes,
and the value, custom and ignored classes.  It answers every later question about types; nothing
is ever added to it.
-/

namespace AuditTrail.Schema

/-- The two kinds of nodes. -/
inductive ManagedKind where
  /-- Named by type and identity. -/
  | entity
  /-- Named by owner and path. -/
  | valueObject
  deriving DecidableEq, Inhabited

/-- A property that graphs and comparisons look at. -/
structure Property where
  /-- Name of the property. -/
  name : String
  /-- Its declared type. -/
  type : TypeExpr
  deriving DecidableEq, Inhabited

/-- A class whose instances are nodes. -/
structure ManagedType where
  /-- Name of the class. -/
  className : String
  /-- Name shown in ids and snapshots. -/
  typeName : String
  /-- Entity or value object. -/
  kind : ManagedKind
  /-- Identity property of an entity. -/
  idProperty : Option String
  /-- Mapped properties in order of declaration. -/
  properties : List Property
  deriving DecidableEq, Inhabited

namespace ManagedType

/-- Whether the instances are entities. -/
def isEntity (managed : ManagedType) : Bool := managed.kind == .entity

/-- The first mapped property of a name. -/
def property? (managed : ManagedType) (name : String) : Option Property :=
  managed.properties.find? fun property => property.name == name

/-- The mapped properties of a declaration. -/
def mappedProperties (decl : ObjectDecl) : List Property :=
  decl.mapped.map fun property => ⟨property.name, property.type⟩

/-- The managed type of a value object class. -/
def ofValueObject (decl : ObjectDecl) : ManagedType where
  className := decl.className
  typeName := decl.shownName
  kind := .valueObject
  idProperty := none
  properties := mappedProperties decl

/-- The identity property of an entity: the one it names, else the only one flagged. -/
def identityOf (decl : ObjectDecl) (named : Option String) : Except SchemaError String :=
  match named, decl.flagged with
  | some name, _ => .ok name
  | none, [] => .error (.missingIdProperty decl.className)
  | none, [name] => .ok name
  | none, candidates => .error (.ambiguousIdProperty decl.className candidates)

/-- The managed type of an entity class, whose identity property has to be mapped. -/
def ofEntity (decl : ObjectDecl) (named : Option String) : Except SchemaError ManagedType := do
  let name ← identityOf decl named
  let properties := mappedProperties decl
  if properties.any fun property => property.name == name then
    .ok
      { className := decl.className
        typeName := decl.shownName
        kind := .entity
        idProperty := some name
        properties }
  else .error (.unknownIdProperty decl.className name)

end ManagedType

/-- Containers that hold elements. -/
inductive CollectionKind where
  /-- Ordered elements. -/
  | list
  /-- Unordered elements. -/
  | set
  /-- Elements at fixed positions. -/
  | array
  deriving DecidableEq, Inhabited

/-- What a declared type turns out to be. -/
inductive Classified where
  /-- Scalars of the named type. -/
  | value (name : String) (rule : Option ValueRule)
  /-- References to nodes of a kind. -/
  | reference (kind : ManagedKind)
  /-- A container of elements. -/
  | collection (kind : CollectionKind) (item : Classified)
  /-- A container of values under keys. -/
  | mapping (key item : Classified)
  /-- Values compared by a rule of their own. -/
  | custom (rule : CustomRule)
  /-- Skipped altogether. -/
  | ignored
  /-- Not registered; compared natively. -/
  | unknown (name : String)

namespace Classified

/-- Whether the type is skipped. -/
def isIgnored : Classified → Bool
  | ignored => true
  | _ => false

/-- Whether the type is a container. -/
def isContainer : Classified → Bool
  | collection _ _ | mapping _ _ => true
  | _ => false

/-- Whether the type is a set. -/
def isSet : Classified → Bool
  | collection .set _ => true
  | _ => false

/-- The type of what a container holds; nothing is known of what any other type holds. -/
def item : Classified → Classified
  | collection _ item | mapping _ item => item
  | _ => unknown ""

/-- Whether two scalars of a value type are equal. -/
def equalScalars (rule : Option ValueRule) (left right : Scalar) : Bool :=
  match rule with
  | some rule => rule.equal left right
  | none => left == right

/-- The printed form of a scalar of a value type. -/
def displayScalar (rule : Option ValueRule) (leaf : Scalar) : String :=
  match rule with
  | some rule => rule.display leaf
  | none => leaf.display

/-- Whether two captured values of the type are equal. -/
def equal (type : Classified) (left right : Captured) : Bool :=
  match type, left, right with
  | value _ rule, .scalar a, .scalar b => equalScalars rule a b
  | custom rule, _, _ => rule left right
  | _, _, _ => left == right

/-- The printed form of a captured value of the type. -/
def display (type : Classified) (captured : Captured) : String :=
  match type, captured with
  | value _ rule, .scalar leaf => displayScalar rule leaf
  | _, _ => captured.display

end Classified

/-- The types of an accepted registry. -/
structure TypeTable where
  /-- Types whose instances are nodes. -/
  managed : List ManagedType
  /-- Value classes with their rules. -/
  values : List (String × Option ValueRule)
  /-- Custom classes with their rules. -/
  customs : List (String × CustomRule)
  /-- Ignored classes. -/
  ignored : List String
  deriving Inhabited

namespace TypeTable

/-- The table without classes. -/
def empty : TypeTable := ⟨[], [], [], []⟩

/-- Names of the value types that need no definition. -/
def builtIn : List String := ["bool", "int", "float", "string"]

/-- The managed type of a class, if it is one. -/
def managedOf? (table : TypeTable) (className : String) : Option ManagedType :=
  table.managed.find? fun managed => managed.className == className

/-- The managed type with a shown name. -/
def managedByName? (table : TypeTable) (typeName : String) : Option ManagedType :=
  table.managed.find? fun managed => managed.typeName == typeName

/-- Rule of a value class, if the class is one. -/
def valueOf? (table : TypeTable) (className : String) : Option (Option ValueRule) :=
  (table.values.find? fun entry => entry.1 == className).map (·.2)

/-- Rule of a custom class, if the class is one. -/
def customOf? (table : TypeTable) (className : String) : Option CustomRule :=
  (table.customs.find? fun entry => entry.1 == className).map (·.2)

/-- Whether instances of the class are skipped. -/
def isIgnored (table : TypeTable) (className : String) : Bool := table.ignored.contains className

/-- Whether the class is in the table at all. -/
def declares (table : TypeTable) (className : String) : Bool :=
  (table.managedOf? className).isSome || (table.valueOf? className).isSome ||
    (table.customOf? className).isSome || table.isIgnored className

/-- The managed type of a class whose instance is used as an object. -/
def managedType (table : TypeTable) (className : String) : Except SchemaError ManagedType :=
  match table.managedOf? className with
  | some managed => .ok managed
  | none =>
    if table.declares className || builtIn.contains className then
      .error (.notManaged className)
    else .error (.unregisteredClass className)

/-- What a class name stands for as a declared type.  Built-in names come first. -/
def classifyName (table : TypeTable) (name : String) : Classified :=
  if builtIn.contains name then .value name none
  else
    match table.valueOf? name, table.managedOf? name, table.customOf? name with
    | some rule, _, _ => .value name rule
    | none, some managed, _ => .reference managed.kind
    | none, none, some rule => .custom rule
    | none, none, none => if table.isIgnored name then .ignored else .unknown name

/-- What a declared type turns out to be. -/
def classify (table : TypeTable) : TypeExpr → Classified
  | .named name => table.classifyName name
  | .list item => .collection .list (table.classify item)
  | .set item => .collection .set (table.classify item)
  | .array item => .collection .array (table.classify item)
  | .map key value => .mapping (table.classify key) (table.classify value)

/-- Add a managed type, whose shown name must be new. -/
def addManaged (table : TypeTable) (managed : ManagedType) : Except SchemaError TypeTable :=
  match table.managedByName? managed.typeName with
  | some first =>
    .error (.duplicateTypeName managed.typeName first.className managed.className)
  | none => .ok { table with managed := table.managed ++ [managed] }

/-- Add a definition, whose class must be new. -/
def add (table : TypeTable) (definition : Definition) : Except SchemaError TypeTable :=
  if table.declares definition.className then .error (.duplicateClass definition.className)
  else
    match definition with
    | .entity decl idProperty => do
      let managed ← ManagedType.ofEntity decl idProperty
      table.addManaged managed
    | .valueObject decl => table.addManaged (.ofValueObject decl)
    | .value className rule => .ok { table with values := table.values ++ [(className, rule)] }
    | .ignored className => .ok { table with ignored := table.ignored ++ [className] }
    | .custom className rule => .ok { table with customs := table.customs ++ [(className, rule)] }

/-- Add definitions in order, up to the first fault. -/
def addAll (table : TypeTable) : List Definition → Except SchemaError TypeTable
  | [] => .ok table
  | definition :: rest => do
    let table ← table.add definition
    table.addAll rest

/-- Whether values of the type can identify an entity. -/
def identifies : Classified → Bool
  | .value _ _ | .unknown _ => true
  | _ => false

/-- Check that the identity property of a managed type is declared with a scalar type. -/
def checkIdentity (table : TypeTable) (managed : ManagedType) : Except SchemaError Unit :=
  match managed.idProperty with
  | none => .ok ()
  | some name =>
    match managed.property? name with
    | none => .ok ()
    | some property =>
      if identifies (table.classify property.type) then .ok ()
      else .error (.nonScalarIdProperty managed.className name)

/-- Check the identity properties of all managed types. -/
def checkIdentities (table : TypeTable) : List ManagedType → Except SchemaError Unit
  | [] => .ok ()
  | managed :: rest => do
    table.checkIdentity managed
    table.checkIdentities rest

/-- The table of a registry.  Identity properties are checked last, when all classes are known. -/
def ofDefinitions (definitions : List Definition) : Except SchemaError TypeTable := do
  let table ← empty.addAll definitions
  table.checkIdentities table.managed
  .ok table

end TypeTable
end AuditTrail.Schema
