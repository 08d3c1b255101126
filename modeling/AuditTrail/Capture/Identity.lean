import AuditTrail.Heap
import AuditTrail.Schema.TypeTable

/-!
# Identities of live objects

Looking up the type of a live object, and the global id that it has of itself: an entity is named
by its identity property, a value object that nothing owns by its type.
-/

namespace AuditTrail

open Schema

/-- Why a live graph cannot be captured. -/
inductive CaptureError where
  /-- The types do not allow it. -/
  | schema (error : SchemaError)
  /-- A slot holds no instance. -/
  | dangling (slot : Slot)
  /-- An entity has no identity value. -/
  | nullIdentity (className : String)
  /-- An identity value is neither an integer nor a text. -/
  | invalidIdentity (className property : String)
  deriving DecidableEq

/-- The wording of an error. -/
def CaptureError.message : CaptureError → String
  | schema error => error.message
  | dangling slot => "dangling object reference #" ++ toString slot
  | nullIdentity className => "entity " ++ className ++ " has a null identity"
  | invalidIdentity className property =>
    "entity " ++ className ++ " has an unsupported identity value in " ++ property

namespace Capture

/-- The instance at a slot. -/
def instanceAt (heap : Heap) (slot : Slot) : Except CaptureError Instance :=
  match heap.get? slot with
  | some object => .ok object
  | none => .error (.dangling slot)

/-- The managed type of a class. -/
def managedType (types : TypeTable) (className : String) : Except CaptureError ManagedType :=
  match types.managedType className with
  | .ok managed => .ok managed
  | .error error => .error (.schema error)

/-- The global id of an entity. -/
def entityId (object : Instance) (managed : ManagedType) : Except CaptureError GlobalId :=
  match managed.idProperty with
  | none => .error (.nullIdentity managed.className)
  | some property =>
    match object.get? property with
    | none | some .null => .error (.nullIdentity managed.className)
    | some (.scalar leaf) =>
      match LocalId.ofScalar? leaf with
      | some localId => .ok (.entity managed.typeName localId)
      | none => .error (.invalidIdentity managed.className property)
    | some _ => .error (.invalidIdentity managed.className property)

/-- The global id that a live object has as a root. -/
def rootId (types : TypeTable) (heap : Heap) (slot : Slot) : Except CaptureError GlobalId := do
  let object ← instanceAt heap slot
  let managed ← managedType types object.className
  if managed.isEntity then entityId object managed else .ok (.unbounded managed.typeName)

/-- What a reference leads to. -/
inductive Referent where
  /-- An instance of an ignored class, which reads as null. -/
  | skipped
  /-- An entity of a global id. -/
  | entity (id : GlobalId)
  /-- A value object. -/
  | valueObject (object : Instance) (managed : ManagedType)

/-- Look up what a reference leads to. -/
def referentAt (types : TypeTable) (heap : Heap) (slot : Slot) :
    Except CaptureError Referent := do
  let object ← instanceAt heap slot
  if types.isIgnored object.className then .ok .skipped
  else
    let managed ← managedType types object.className
    if managed.isEntity then
      let id ← entityId object managed
      .ok (.entity id)
    else .ok (.valueObject object managed)

end Capture
end AuditTrail
