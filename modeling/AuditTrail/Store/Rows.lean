import AuditTrail.Codec.Commit
import AuditTrail.Json.Printer
import AuditTrail.Json.Reader
import AuditTrail.Store

/-!
# The store in rows

Commits and snapshots are rows of two tables.  A row has the columns that queries look at and a
payload, the written form of what is stored.  Columns are signed 64-bit words, so naturals from
`2 ^ 63` on are negative there and compare below all others.

The rows of a commit are written together or not at all.  A commit id occurs once, and so does a
pair of a node and a version.
-/

namespace AuditTrail

namespace Column

/-- A natural as a signed 64-bit word. -/
def ofNat (n : Nat) : Int := Int.bmod n (Nat.pow 2 64)

/-- The natural of the given number of bits that a column holds. -/
def toNat (bits : Nat) (column : Int) : Nat := (column % Nat.pow 2 bits).toNat

end Column

/-- Payloads carry the version of their format. -/
def payloadVersion : Nat := 1

namespace Payload

open Codec

/-- The written form of what is stored under `name`. -/
def encode (name : String) (content : Json) : String :=
  (Json.obj [("format_version", .ofNat payloadVersion), (name, content)]).print

/-- What is stored under `name`.  A payload of another version is recognised only if it has the
same parts. -/
def decode {α : Type} (name : String) (read : Nat → Json → Option α) (payload : String) :
    Except StoreError α :=
  let parts := do
    let json ← Json.read? payload
    match ← record? nestingLimit ["format_version", name] [] json with
    | (room, [some version, some content]) =>
      some (← natural? 16 version, ← read room content)
    | _ => none
  match parts with
  | none => .error .undecodable
  | some (version, value) =>
    if version = payloadVersion then .ok value else .error (.unsupportedVersion version)

end Payload

/-- A row of the table of commits. -/
structure CommitRow where
  /-- Leading number of the commit id. -/
  major : Int
  /-- Trailing number of the commit id. -/
  minor : Int
  /-- Time of the commit. -/
  timestamp : Int
  /-- Position in the order of local writes. -/
  sequence : Int
  /-- The metadata as written. -/
  payload : String
  deriving DecidableEq, Inhabited

/-- A row of the table of snapshots. -/
structure SnapshotRow where
  /-- The node's id as written. -/
  key : String
  /-- Number of the snapshot among those of its node. -/
  version : Int
  /-- Leading number of the commit id. -/
  major : Int
  /-- Trailing number of the commit id. -/
  minor : Int
  /-- The snapshot as written. -/
  payload : String
  deriving DecidableEq, Inhabited

namespace CommitRow

/-- The row of a commit's metadata. -/
def ofMetadata (metadata : CommitMetadata) : CommitRow where
  major := Column.ofNat metadata.id.major
  minor := Column.ofNat metadata.id.minor
  timestamp := Column.ofNat metadata.timestamp
  sequence := Column.ofNat metadata.sequence
  payload := Payload.encode "commit" metadata.encode

/-- Whether the row is that of a commit id. -/
def isOf (row : CommitRow) (id : CommitId) : Bool :=
  row.major == Column.ofNat id.major && row.minor == Column.ofNat id.minor

/-- The commit id of the row. -/
def id (row : CommitRow) : CommitId := ⟨Column.toNat 64 row.major, Column.toNat 32 row.minor⟩

/-- Whether the row comes after another in the order of the id columns. -/
def isAbove (row other : CommitRow) : Bool :=
  other.major < row.major || (other.major == row.major && other.minor < row.minor)

end CommitRow

namespace SnapshotRow

/-- The key of a node. -/
def keyOf (id : GlobalId) : String := id.encode.print

/-- The row of a snapshot written by a commit. -/
def ofSnapshot (commit : CommitId) (snapshot : Snapshot) : SnapshotRow where
  key := keyOf snapshot.id
  version := Column.ofNat snapshot.version
  major := Column.ofNat commit.major
  minor := Column.ofNat commit.minor
  payload := Payload.encode "snapshot" snapshot.encode

/-- Whether two rows have the same node and version. -/
def conflicts (row other : SnapshotRow) : Bool :=
  row.key == other.key && row.version == other.version

end SnapshotRow

/-- Whether the columns of a commit lie within a bound. -/
def Bound.admitsRow (bound : Bound) (row : CommitRow) : Bool :=
  match bound with
  | .time timestamp => row.timestamp ≤ Column.ofNat timestamp
  | .commit id _ _ .sequential =>
    let major := Column.ofNat id.major
    row.major < major || (row.major == major && row.minor ≤ Column.ofNat id.minor)
  | .commit id timestamp sequence .random =>
    let time := Column.ofNat timestamp
    row.isOf id || row.timestamp < time ||
      (row.timestamp == time && row.sequence ≤ Column.ofNat sequence)

/-- A store that keeps its contents as rows. -/
structure RowStore where
  /-- The table of commits, in the order of writing. -/
  commits : List CommitRow
  /-- The table of snapshots, in the order of writing. -/
  snapshots : List SnapshotRow
  deriving Inhabited

namespace RowStore

/-- The store without rows. -/
def empty : RowStore := ⟨[], []⟩

/-- The row of a commit id. -/
def commitRow? (store : RowStore) (id : CommitId) : Option CommitRow :=
  store.commits.find? fun row => row.isOf id

/-- Whether the commit of a snapshot row lies within the bound of a query. -/
def admits (store : RowStore) (query : Query) (row : SnapshotRow) : Bool :=
  store.commits.any fun commit =>
    commit.major == row.major && commit.minor == row.minor &&
      match query.bound with
      | none => true
      | some bound => bound.admitsRow commit

/-- The rows that a query matches, greatest version first. -/
def matching (store : RowStore) (id : GlobalId) (query : Query) : List SnapshotRow :=
  let key := SnapshotRow.keyOf id
  let rows := store.snapshots.filter fun row => row.key == key && store.admits query row
  query.cut (rows.mergeSort fun a b => b.version ≤ a.version)

/-- Append the rows of a commit, none of which may conflict with another row. -/
def append (stored : List SnapshotRow) :
    List SnapshotRow → Except StoreError (List SnapshotRow)
  | [] => .ok stored
  | row :: rest =>
    if stored.any row.conflicts then .error .conflictingRow else append (stored ++ [row]) rest

/-- Store a commit whose id is new and whose rows conflict with none. -/
def persist (store : RowStore) (commit : Commit) : Except StoreError RowStore :=
  if (store.commitRow? commit.id).isSome then .error (.duplicateCommit commit.id)
  else do
    let snapshots ← append store.snapshots (commit.snapshots.map (SnapshotRow.ofSnapshot commit.id))
    .ok ⟨store.commits ++ [.ofMetadata commit.metadata], snapshots⟩

/-- The row of the highest commit id. -/
def headRow? (store : RowStore) : Option CommitRow :=
  store.commits.foldl
    (fun head row =>
      match head with
      | none => some row
      | some head => some (if row.isAbove head then row else head))
    none

/-- The highest sequence column, zero if there is no row. -/
def lastSequence (store : RowStore) : Int :=
  ((store.commits.map (·.sequence)).max?).getD 0

/-- The metadata of a stored commit. -/
def metadata? (store : RowStore) (id : CommitId) : Except StoreError (Option CommitMetadata) :=
  match store.commitRow? id with
  | none => .ok none
  | some row => (Payload.decode "commit" CommitMetadata.decode? row.payload).map some

instance : Store RowStore where
  snapshotsOf store id query :=
    (store.matching id query).mapM fun row =>
      Payload.decode "snapshot" Snapshot.decode? row.payload
  persist := persist
  head? store := store.headRow?.map CommitRow.id
  lastSequence store := Column.toNat 64 store.lastSequence
  metadata? := metadata?
  snapshotCount store := store.snapshots.length

end RowStore
end AuditTrail
