import AuditTrail.Capture.Content
import AuditTrail.Graph

/-!
# Capturing live graphs

A capture starts at its roots and follows references until every object reached is a node.  Objects
that wait are taken last in, first out.  A value object is named by the first path that reaches it
and keeps that name, whichever paths reach it later.

Each step captures an object whose id is not yet a node.  A slot has one id, so no more steps than
instances can follow each other.
-/

namespace AuditTrail.Capture

open Schema

/-- What a capture carries from object to object. -/
structure Walk where
  /-- Objects that wait to be captured, the next one first. -/
  pending : List (Slot × GlobalId)
  /-- Names given to value objects so far. -/
  names : List (Slot × GlobalId)
  deriving Inhabited

namespace Walk

/-- The walk in which nothing waits and nothing is named. -/
def empty : Walk := ⟨[], []⟩

/-- The name given to a value object. -/
def name? (walk : Walk) (slot : Slot) : Option GlobalId :=
  (walk.names.find? fun entry => entry.1 == slot).map (·.2)

/-- Let an object wait in front of the others. -/
def push (walk : Walk) (slot : Slot) (id : GlobalId) : Walk :=
  { walk with pending := (slot, id) :: walk.pending }

/-- Name a value object that has no name yet. -/
def giveName (walk : Walk) (slot : Slot) (id : GlobalId) : Walk :=
  { walk with names := (slot, id) :: walk.names }

end Walk

section Values

variable (types : TypeTable) (heap : Heap) (owner : GlobalId)

/-- Capture a reference found at `path` below `owner`, and let its target wait. -/
def captureRef (path : String) (slot : Slot) (walk : Walk) :
    Except CaptureError (Captured × Walk) := do
  match ← referentAt types heap slot with
  | .skipped => .ok (.null, walk)
  | .entity id => .ok (.ref id, walk.push slot id)
  | .valueObject _ _ =>
    match walk.name? slot with
    | some id => .ok (.ref id, walk)
    | none =>
      let id := owner.child path
      .ok (.ref id, (walk.giveName slot id).push slot id)

/-- The path of an element: references in sets are told apart by content, all else by position. -/
def itemPath (type : Classified) (path : String) (index : Nat) (item : Live) :
    Except CaptureError String := do
  if type.isSet && item.isRef then
    let name ← contentName types heap item
    .ok (path ++ "/" ++ name)
  else .ok (path ++ "/" ++ toString index)

mutual

/-- Capture a value of a declared type found at `path` below `owner`. -/
def captureValue (type : Classified) (path : String) :
    Live → Walk → Except CaptureError (Captured × Walk)
  | .null, walk => .ok (.null, walk)
  | .scalar leaf, walk => .ok (.scalar leaf, walk)
  | .ref slot, walk => captureRef types heap owner path slot walk
  | .seq items, walk => do
    let (items, walk) ← captureItems type path 0 items walk
    .ok (.seq items, walk)
  | .map entries, walk => do
    let (entries, walk) ← captureEntries type path 0 entries walk
    .ok (.map entries, walk)

/-- Capture elements, the first of them at position `index`. -/
def captureItems (type : Classified) (path : String) (index : Nat) :
    List Live → Walk → Except CaptureError (List Captured × Walk)
  | [], walk => .ok ([], walk)
  | item :: rest, walk => do
    let place ← itemPath types heap type path index item
    let (item, walk) ← captureValue type.item place item walk
    let (rest, walk) ← captureItems type path (index + 1) rest walk
    .ok (item :: rest, walk)

/-- Capture entries, the first of them at position `index`.  Keys lie at their position, values at
the printed form of their key. -/
def captureEntries (type : Classified) (path : String) (index : Nat) :
    List (Live × Live) → Walk → Except CaptureError (List (Captured × Captured) × Walk)
  | [], walk => .ok ([], walk)
  | (key, value) :: rest, walk => do
    let (key, walk) ← captureValue (.unknown "") (path ++ "/" ++ toString index) key walk
    let (value, walk) ← captureValue type.item (path ++ "/" ++ key.display) value walk
    let (rest, walk) ← captureEntries type path (index + 1) rest walk
    .ok ((key, value) :: rest, walk)

end

/-- Capture the properties of an object in order of declaration.  Properties that are unset or of
an ignored type are left out. -/
def captureProperties (object : Instance) :
    List Property → State → Walk → Except CaptureError (State × Walk)
  | [], state, walk => .ok (state, walk)
  | property :: rest, state, walk => do
    let type := types.classify property.type
    match type.isIgnored, object.get? property.name with
    | false, some value =>
      let (captured, walk) ← captureValue types heap owner type property.name value walk
      captureProperties object rest (state.insert property.name captured) walk
    | _, _ => captureProperties object rest state walk

end Values

/-- Capture one object as the node of its id. -/
def captureNode (types : TypeTable) (heap : Heap) (slot : Slot) (id : GlobalId) (walk : Walk) :
    Except CaptureError (Node × Walk) := do
  let object ← instanceAt heap slot
  let managed ← managedType types object.className
  let (state, walk) ← captureProperties types heap id object managed.properties .empty walk
  .ok (⟨id, managed.typeName, state⟩, walk)

/-- Capture waiting objects until every id that waits is a node.  `room` counts the instances that
can still be captured; when there are none, a slot that waits holds no instance. -/
def drain (types : TypeTable) (heap : Heap) : Nat → Walk → Graph → Except CaptureError Graph
  | room, walk, graph =>
    match walk.pending.dropWhile fun entry => graph.contains entry.2 with
    | [] => .ok graph
    | (slot, id) :: rest =>
      match room with
      | 0 => .error (.dangling slot)
      | room + 1 => do
        let (node, walk) ← captureNode types heap slot id { walk with pending := rest }
        drain types heap room walk (graph.insert node)

/-- Name the roots and let them wait, the last one in front. -/
def enter (types : TypeTable) (heap : Heap) :
    List Slot → Walk → Except CaptureError (List GlobalId × Walk)
  | [], walk => .ok ([], walk)
  | slot :: rest, walk => do
    let id ← rootId types heap slot
    let walk := if id.isValueObject && (walk.name? slot).isNone then walk.giveName slot id else walk
    let (ids, walk) ← enter types heap rest (walk.push slot id)
    .ok (id :: ids, walk)

/-- Capture the graph that the roots lead to. -/
def capture (types : TypeTable) (heap : Heap) (roots : List Slot) :
    Except CaptureError Graph := do
  let (ids, walk) ← enter types heap roots .empty
  drain types heap heap.size walk (.withRoots ids)

end AuditTrail.Capture
