import AuditTrail.Diff.Comparison
import AuditTrail.Store

/-!
# Assembling commits

A commit is assembled by comparing a captured graph with the newest stored snapshots of its nodes
and of the value objects that these reach.  Value objects that are no longer captured get a
terminal snapshot that way, while entities end only when they are terminated by id.
-/

namespace AuditTrail

/-- Newest snapshots by node. -/
abbrev LatestSnapshots := Table Snapshot.id

namespace LatestSnapshots

/-- The snapshots of nodes that did not go away, in the order of the nodes. -/
def live (latest : LatestSnapshots) : List Snapshot :=
  latest.rows.filter fun snapshot => !snapshot.isTerminal

/-- The nodes that did not go away, as a graph. -/
def graph (latest : LatestSnapshots) : Graph := .ofNodes [] (latest.live.map Snapshot.node)

end LatestSnapshots

namespace Snapshot

/-- The value objects that a live snapshot refers to; a terminal one refers to none. -/
def valueObjects (snapshot : Snapshot) : List GlobalId :=
  if snapshot.isTerminal then [] else snapshot.state.references.filter GlobalId.isValueObject

end Snapshot

namespace Assembly

variable {σ : Type} [Store σ]

/-- The first of the waiting ids that has a snapshot and is not loaded, with the ids behind it. -/
def firstStored (store : σ) (loaded : LatestSnapshots) :
    List GlobalId → Except StoreError (Option (Snapshot × List GlobalId))
  | [] => .ok none
  | id :: rest =>
    if loaded.contains id then firstStored store loaded rest
    else do
      match ← Store.latest? store id with
      | none => firstStored store loaded rest
      | some snapshot => .ok (some (snapshot, rest))

/-- Load the newest snapshots of the waiting ids and of all value objects that live ones refer to,
the last reference first.  `room` counts the snapshots that can still be loaded. -/
def load (store : σ) :
    Nat → LatestSnapshots → List GlobalId → Except StoreError LatestSnapshots
  | room, loaded, pending => do
    match ← firstStored store loaded pending with
    | none => .ok loaded
    | some (snapshot, rest) =>
      match room with
      | 0 => .ok loaded
      | room + 1 => load store room (loaded.put snapshot) (snapshot.valueObjects.reverse ++ rest)

/-- The newest snapshots of the given ids and of all value objects that live ones reach. -/
def closure (store : σ) (ids : List GlobalId) : Except StoreError LatestSnapshots :=
  load store (Store.snapshotCount store) .empty ids.reverse

/-- The terminal snapshot of a node. -/
def terminalOf (metadata : CommitMetadata) (changed : List String) (snapshot : Snapshot) :
    Snapshot :=
  .following metadata ⟨snapshot.id, snapshot.typeName, .empty⟩ .terminal changed (some snapshot)

/-- The snapshot of a node that came into being.  Unless its properties are reported one by one,
all of them count as changed. -/
def initialOf (metadata : CommitMetadata) (node : Node) (changed : List String)
    (previous : Option Snapshot) : Snapshot :=
  .following metadata node .initial (if changed.isEmpty then node.state.names else changed)
    previous

/-- The snapshot that the changes of one node call for. -/
def snapshotFor? (metadata : CommitMetadata) (latest : LatestSnapshots) (current : Graph)
    (group : ChangeGroup) : Option Snapshot :=
  let previous := latest.find? group.target
  let changed := group.changes.filterMap Change.property?
  if group.changes.any Change.isRemoval then previous.map (terminalOf metadata changed)
  else
    (current.find? group.target).map fun node =>
      if group.changes.any Change.isCreation then initialOf metadata node changed previous
      else .following metadata node .update changed previous

end Assembly

namespace Commit

open Assembly

variable {σ : Type} [Store σ]

/-- The commit that records how a captured graph differs from what is stored. -/
def recording (types : Schema.TypeTable) (options : DiffOptions) (store : σ)
    (metadata : CommitMetadata) (current : Graph) : Except StoreError Commit := do
  let latest ← closure store current.ids
  let diff := Diff.between types options latest.graph current
  .ok ⟨metadata, diff, diff.byNode.rows.filterMap (snapshotFor? metadata latest current)⟩

/-- The commit that ends a node together with the value objects it reaches; none if the node is
not live. -/
def terminating (store : σ) (metadata : CommitMetadata) (id : GlobalId) :
    Except StoreError (Option Commit) := do
  match ← Store.live? store id .latest with
  | none => .ok none
  | some _ =>
    let latest ← closure store [id]
    let changes := latest.live.map fun snapshot => ⟨snapshot.id, snapshot.typeName, .removed⟩
    .ok (some ⟨metadata, ⟨changes⟩, latest.live.map (terminalOf metadata [])⟩)

end Commit
end AuditTrail
