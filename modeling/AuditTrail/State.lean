import AuditTrail.Value

/-!
# Property states

A state maps property names to captured values and keeps the order in which the names were first
set.  Null is the value of every name that is not stored, so setting a name to null removes it.
-/

namespace AuditTrail

/-- The captured properties of a node. -/
structure State where
  /-- Names with their values, in the order of first setting. -/
  entries : List (String × Captured)
  deriving Inhabited

namespace State

/-- The state in which every property is null. -/
def empty : State := ⟨[]⟩

/-- The value of a property; null where none is stored. -/
def get (state : State) (name : String) : Captured :=
  match state.entries.find? fun entry => entry.1 == name with
  | some (_, value) => value
  | none => .null

/-- Whether a value is stored under the name. -/
def contains (state : State) (name : String) : Bool :=
  state.entries.any fun entry => entry.1 == name

/-- Replace the first entry of a name. -/
def replaceFirst (name : String) (value : Captured) :
    List (String × Captured) → List (String × Captured)
  | [] => []
  | entry :: rest =>
    if entry.1 == name then (entry.1, value) :: rest
    else entry :: replaceFirst name value rest

/-- Remove the first entry of a name. -/
def removeFirst (name : String) : List (String × Captured) → List (String × Captured)
  | [] => []
  | entry :: rest => if entry.1 == name then rest else entry :: removeFirst name rest

/-- Set a property.  A name that is already there keeps its place, null takes a name out, and a new
name goes to the end. -/
def insert (state : State) (name : String) (value : Captured) : State :=
  ⟨match state.contains name, value.isNull with
    | true, true => removeFirst name state.entries
    | true, false => replaceFirst name value state.entries
    | false, true => state.entries
    | false, false => state.entries ++ [(name, value)]⟩

/-- The state after setting properties one after another. -/
def ofList (settings : List (String × Captured)) : State :=
  settings.foldl (fun state setting => state.insert setting.1 setting.2) empty

/-- The stored names in order. -/
def names (state : State) : List String := state.entries.map (·.1)

/-- Number of stored properties. -/
def size (state : State) : Nat := state.entries.length

/-- Every node that some property refers to. -/
def references (state : State) : List GlobalId :=
  state.entries.flatMap fun entry => entry.2.references

/-- States are equal when they are of one size and every property of the left is the same on the
right; the order of the names does not count. -/
def same (left right : State) : Bool :=
  left.size == right.size && left.entries.all fun entry => right.get entry.1 == entry.2

instance : BEq State := ⟨same⟩

end State
end AuditTrail
