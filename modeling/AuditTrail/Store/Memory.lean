import AuditTrail.Store

/-!
# The store in memory

Commits by id, and all snapshots in the order of writing.  The history of a node is what the list
of snapshots holds of it.
-/

namespace AuditTrail

/-- A store that keeps its contents as values. -/
structure MemoryStore where
  /-- Stored commits by id. -/
  commits : Table CommitMetadata.id
  /-- Stored snapshots, the newest first. -/
  snapshots : List Snapshot
  deriving Inhabited

namespace MemoryStore

/-- The store without commits. -/
def empty : MemoryStore := ⟨.empty, []⟩

/-- The history of a node, newest first. -/
def history (store : MemoryStore) (id : GlobalId) : List Snapshot :=
  store.snapshots.filter fun snapshot => snapshot.id == id

/-- The version of the newest snapshot of a node, zero if there is none. -/
def latestVersion (store : MemoryStore) (id : GlobalId) : Nat :=
  ((store.history id).head?.map (·.version)).getD 0

/-- The first snapshot that is not newer than the stored history of its node. -/
def stale? (store : MemoryStore) (snapshots : List Snapshot) : Option Snapshot :=
  snapshots.find? fun snapshot => snapshot.version ≤ store.latestVersion snapshot.id

/-- Store a commit whose id is new and whose snapshots are all newer than what is stored. -/
def persist (store : MemoryStore) (commit : Commit) : Except StoreError MemoryStore :=
  if store.commits.contains commit.id then .error (.duplicateCommit commit.id)
  else
    match store.stale? commit.snapshots with
    | some snapshot =>
      .error (.staleSnapshot snapshot.id snapshot.version (store.latestVersion snapshot.id))
    | none =>
      .ok ⟨store.commits.put commit.metadata, commit.snapshots.reverse ++ store.snapshots⟩

instance : Store MemoryStore where
  snapshotsOf store id query := .ok (query.select (store.history id))
  persist := persist
  head? store := store.commits.keys.getLast?
  lastSequence store := (store.commits.rows.map (·.sequence)).foldl max 0
  metadata? store id := .ok (store.commits.find? id)
  snapshotCount store := store.snapshots.length

end MemoryStore
end AuditTrail
