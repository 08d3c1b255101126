import AuditTrail.AuditError
import AuditTrail.Heap

/-!
# Shadows

A shadow rebuilds the live objects of a point in history from stored snapshots.  Each node becomes
one instance, however many references lead to it, so sharing and cycles come back as they were.
References that lead to nothing at that point become null.

Instances are allocated when they are first referred to and filled in last in, first out.
-/

namespace AuditTrail

open Schema

/-- The point in history that a shadow reflects. -/
inductive VersionSelector where
  /-- The newest snapshots. -/
  | latest
  /-- The snapshots of commits up to a given one. -/
  | commit (id : CommitId)
  /-- The snapshots of commits up to a time. -/
  | time (timestamp : Nat)
  deriving DecidableEq, Inhabited

/-- How far a shadow follows references. -/
inductive ShadowScope where
  /-- Only to value objects; references to entities become null. -/
  | shallow
  /-- To all nodes. -/
  | deep
  deriving DecidableEq, Inhabited

/-- Objects rebuilt from history. -/
structure Shadow where
  /-- The rebuilt instances. -/
  heap : Heap
  /-- Slot of the node that was asked for. -/
  root : Slot
  /-- The commit that wrote its snapshot. -/
  commit : CommitMetadata
  deriving Inhabited

namespace VersionSelector

variable {σ : Type} [Store σ]

/-- The query for the snapshots of a point in history.  A commit that was never stored can be
placed only if ids order commits. -/
def query (store : σ) (scheme : CommitIdScheme) : VersionSelector → Except AuditError Query
  | latest => .ok .latest
  | time timestamp => .ok (.latestWithin (.time timestamp))
  | commit id =>
    match Store.metadata? store id, scheme with
    | .error error, _ => .error (.store error)
    | .ok (some metadata), _ =>
      .ok (.latestWithin (.commit id metadata.timestamp metadata.sequence scheme))
    | .ok none, .sequential => .ok (.latestWithin (.commit id 0 0 scheme))
    | .ok none, .random => .error (.unknownCommit id)

end VersionSelector

namespace Shadow

/-- Instances under reconstruction. -/
structure Rebuild where
  /-- The instances so far. -/
  heap : Heap
  /-- The slots of the nodes that have an instance. -/
  placed : List (GlobalId × Slot)
  /-- Instances that wait to be filled in, the next one first. -/
  pending : List (Slot × Snapshot)
  deriving Inhabited

namespace Rebuild

/-- The reconstruction without instances. -/
def empty : Rebuild := ⟨.empty, [], []⟩

/-- The slot of a node. -/
def slot? (rebuild : Rebuild) (id : GlobalId) : Option Slot :=
  (rebuild.placed.find? fun entry => entry.1 == id).map (·.2)

/-- Allocate an instance for a snapshot at the next slot and let it wait in front of the others. -/
def place (rebuild : Rebuild) (className : String) (snapshot : Snapshot) : Rebuild where
  heap := rebuild.heap.alloc (.ofClass className)
  placed := (snapshot.id, rebuild.heap.size) :: rebuild.placed
  pending := (rebuild.heap.size, snapshot) :: rebuild.pending

end Rebuild

/-- The class of the instance that a snapshot becomes: the one shown by the type name, or the type
name itself if no class is shown by it. -/
def classOf (types : TypeTable) (snapshot : Snapshot) : String :=
  ((types.managedByName? snapshot.typeName).map (·.className)).getD snapshot.typeName

section Values

variable {σ : Type} [Store σ] (types : TypeTable) (store : σ) (query : Query) (scope : ShadowScope)

/-- Rebuild a reference, placing its target when it is first referred to. -/
def rebuildRef (id : GlobalId) (rebuild : Rebuild) : Except StoreError (Live × Rebuild) :=
  match rebuild.slot? id with
  | some slot => .ok (.ref slot, rebuild)
  | none =>
    if scope == .shallow && !id.isValueObject then .ok (.null, rebuild)
    else do
      match ← Store.live? store id query with
      | none => .ok (.null, rebuild)
      | some snapshot =>
        .ok (.ref rebuild.heap.size, rebuild.place (classOf types snapshot) snapshot)

mutual

/-- Rebuild a captured value. -/
def rebuildValue : Captured → Rebuild → Except StoreError (Live × Rebuild)
  | .null, rebuild => .ok (.null, rebuild)
  | .scalar leaf, rebuild => .ok (.scalar leaf, rebuild)
  | .ref id, rebuild => rebuildRef types store query scope id rebuild
  | .seq items, rebuild => do
    let (items, rebuild) ← rebuildItems items rebuild
    .ok (.seq items, rebuild)
  | .map entries, rebuild => do
    let (entries, rebuild) ← rebuildEntries entries rebuild
    .ok (.map entries, rebuild)

/-- Rebuild the elements of a sequence from left to right. -/
def rebuildItems : List Captured → Rebuild → Except StoreError (List Live × Rebuild)
  | [], rebuild => .ok ([], rebuild)
  | item :: rest, rebuild => do
    let (item, rebuild) ← rebuildValue item rebuild
    let (rest, rebuild) ← rebuildItems rest rebuild
    .ok (item :: rest, rebuild)

/-- Rebuild the entries of a map, each key before its value. -/
def rebuildEntries :
    List (Captured × Captured) → Rebuild → Except StoreError (List (Live × Live) × Rebuild)
  | [], rebuild => .ok ([], rebuild)
  | (key, value) :: rest, rebuild => do
    let (key, rebuild) ← rebuildValue key rebuild
    let (value, rebuild) ← rebuildValue value rebuild
    let (rest, rebuild) ← rebuildEntries rest rebuild
    .ok ((key, value) :: rest, rebuild)

end

/-- Rebuild the properties of a state in order. -/
def rebuildProperties :
    List (String × Captured) → Rebuild → Except StoreError (List (String × Live) × Rebuild)
  | [], rebuild => .ok ([], rebuild)
  | (name, value) :: rest, rebuild => do
    let (value, rebuild) ← rebuildValue types store query scope value rebuild
    let (rest, rebuild) ← rebuildProperties rest rebuild
    .ok ((name, value) :: rest, rebuild)

/-- Fill in waiting instances until none waits.  `room` counts the snapshots that can still be
rebuilt; there is one for every instance. -/
def fill : Nat → Rebuild → Except StoreError Heap
  | room, rebuild =>
    match rebuild.pending with
    | [] => .ok rebuild.heap
    | (slot, snapshot) :: rest =>
      match room with
      | 0 => .ok rebuild.heap
      | room + 1 => do
        let (properties, rebuild) ←
          rebuildProperties types store query scope snapshot.state.entries
            { rebuild with pending := rest }
        let heap :=
          rebuild.heap.update slot fun object =>
            properties.foldl (fun object property => object.set property.1 property.2) object
        fill room { rebuild with heap }

/-- The shadow of a live snapshot. -/
def ofSnapshot (snapshot : Snapshot) : Except StoreError Shadow := do
  let start := Rebuild.empty.place (classOf types snapshot) snapshot
  let heap ← fill types store query scope (Store.snapshotCount store) start
  .ok ⟨heap, 0, snapshot.commit⟩

end Values

/-- The shadow of a node at a point in history. -/
def of {σ : Type} [Store σ] (types : TypeTable) (store : σ) (scheme : CommitIdScheme)
    (id : GlobalId) (selector : VersionSelector) (scope : ShadowScope) :
    Except AuditError Shadow := do
  let query ← selector.query store scheme
  match Store.live? store id query with
  | .error error => .error (.store error)
  | .ok none => .error (.notFound id)
  | .ok (some snapshot) =>
    (ofSnapshot types store query scope snapshot).mapError .store

end Shadow
end AuditTrail
