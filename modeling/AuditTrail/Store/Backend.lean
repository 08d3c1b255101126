import AuditTrail.Store.Memory
import AuditTrail.Store.Rows

/-!
# Backends

A backend is one of the stores, chosen when an audit trail is opened.  One of them is read as the
store in memory but breaks off whenever it is written to.
-/

namespace AuditTrail

/-- One of the stores. -/
inductive Backend where
  /-- The store in memory. -/
  | memory (store : MemoryStore)
  /-- The store in rows. -/
  | rows (store : RowStore)
  /-- A store in memory that cannot be written to. -/
  | unwritable (store : MemoryStore)
  deriving Inhabited

namespace Backend

/-- Store a commit as a whole. -/
def persist (backend : Backend) (commit : Commit) : Except StoreError Backend :=
  match backend with
  | memory store => (store.persist commit).map memory
  | rows store => (store.persist commit).map rows
  | unwritable _ => .error .brokenOff

instance : Store Backend where
  snapshotsOf
    | memory store | unwritable store => Store.snapshotsOf store
    | rows store => Store.snapshotsOf store
  persist := persist
  head?
    | memory store | unwritable store => Store.head? store
    | rows store => Store.head? store
  lastSequence
    | memory store | unwritable store => Store.lastSequence store
    | rows store => Store.lastSequence store
  metadata?
    | memory store | unwritable store => Store.metadata? store
    | rows store => Store.metadata? store
  snapshotCount
    | memory store | unwritable store => Store.snapshotCount store
    | rows store => Store.snapshotCount store

end Backend
end AuditTrail
