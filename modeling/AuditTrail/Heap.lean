import AuditTrail.Value

/-!
# Heaps of live objects

A heap holds instances at consecutive slots.  Instances refer to each other by slot, so cycles
need no special form, and a slot beyond the end refers to nothing.
-/

namespace AuditTrail

/-- A live object: its class and the values set on it. -/
structure Instance where
  /-- Name of the class. -/
  className : String
  /-- Values by property name, in the order of first setting. -/
  properties : List (String × Live)
  deriving Inhabited

namespace Instance

/-- An instance without values. -/
def ofClass (className : String) : Instance := ⟨className, []⟩

/-- The value set for a property; unset is not the same as null. -/
def get? (object : Instance) (name : String) : Option Live :=
  (object.properties.find? fun entry => entry.1 == name).map (·.2)

/-- Replace the value of a name, or add the name at the end. -/
def setIn (name : String) (value : Live) : List (String × Live) → List (String × Live)
  | [] => [(name, value)]
  | entry :: rest =>
    if entry.1 == name then (name, value) :: rest else entry :: setIn name value rest

/-- Set a property. -/
def set (object : Instance) (name : String) (value : Live) : Instance :=
  { object with properties := setIn name value object.properties }

/-- The instance of a class with properties set one after another. -/
def ofList (className : String) (settings : List (String × Live)) : Instance :=
  settings.foldl (fun object setting => object.set setting.1 setting.2) (ofClass className)

end Instance

/-- Live objects by slot. -/
structure Heap where
  /-- The instances in slot order. -/
  instances : List Instance
  deriving Inhabited

namespace Heap

/-- The heap without instances. -/
def empty : Heap := ⟨[]⟩

/-- The instance at a slot. -/
def get? (heap : Heap) (slot : Slot) : Option Instance := heap.instances[slot]?

/-- Number of instances, which is the slot of the next one. -/
def size (heap : Heap) : Nat := heap.instances.length

/-- Add an instance at the next slot. -/
def alloc (heap : Heap) (object : Instance) : Heap := ⟨heap.instances ++ [object]⟩

/-- Change the instance at a slot, if there is one. -/
def update (heap : Heap) (slot : Slot) (change : Instance → Instance) : Heap :=
  ⟨heap.instances.modify slot change⟩

end Heap
end AuditTrail
