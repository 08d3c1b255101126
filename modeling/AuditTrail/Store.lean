import AuditTrail.Store.Query

/-!
# Stores

A store keeps commits and the histories of nodes.  It only ever grows, and a commit is stored
either as a whole or not at all.
-/

namespace AuditTrail

/-- Why a store refuses. -/
inductive StoreError where
  /-- A commit of this id is stored already. -/
  | duplicateCommit (id : CommitId)
  /-- A snapshot is not newer than the stored history of its node. -/
  | staleSnapshot (id : GlobalId) (version stored : Nat)
  /-- Two snapshot rows would have the same node and version. -/
  | conflictingRow
  /-- A stored payload has a format version that cannot be read. -/
  | unsupportedVersion (version : Nat)
  /-- A stored payload cannot be decoded. -/
  | undecodable
  /-- The store broke off without an answer. -/
  | brokenOff
  deriving DecidableEq

/-- The wording of an error. -/
def StoreError.message : StoreError → String
  | duplicateCommit id => "commit " ++ id.display ++ " already persisted"
  | staleSnapshot id version stored =>
    "stale snapshot " ++ id.display ++ " v" ++ toString version ++ " (stored v" ++
      toString stored ++ ")"
  | conflictingRow =>
    "sqlite: UNIQUE constraint failed: snapshots.global_id, snapshots.version"
  | unsupportedVersion version => "unsupported payload format version: " ++ toString version
  | undecodable => "undecodable payload"
  | brokenOff => "store broke off"

/-- Where commits and histories are kept. -/
class Store (σ : Type) where
  /-- Snapshots of a node that match a query, newest first. -/
  snapshotsOf : σ → GlobalId → Query → Except StoreError (List Snapshot)
  /-- Store a commit as a whole. -/
  persist : σ → Commit → Except StoreError σ
  /-- The highest stored commit id. -/
  head? : σ → Option CommitId
  /-- The highest stored sequence, zero if nothing is stored. -/
  lastSequence : σ → Nat
  /-- The metadata of a stored commit. -/
  metadata? : σ → CommitId → Except StoreError (Option CommitMetadata)
  /-- Number of stored snapshots, which no number of nodes with a history exceeds. -/
  snapshotCount : σ → Nat

namespace Store

variable {σ : Type} [Store σ]

/-- The newest snapshot that a query matches. -/
def first? (store : σ) (id : GlobalId) (query : Query) : Except StoreError (Option Snapshot) := do
  let found ← snapshotsOf store id query
  .ok found.head?

/-- The newest snapshot of a node, even if it went away. -/
def latest? (store : σ) (id : GlobalId) : Except StoreError (Option Snapshot) :=
  first? store id .latest

/-- The newest snapshot that a query matches, unless the node went away with it. -/
def live? (store : σ) (id : GlobalId) (query : Query) : Except StoreError (Option Snapshot) := do
  let found ← first? store id query
  .ok (found.filter fun snapshot => !snapshot.isTerminal)

end Store
end AuditTrail
