import AuditTrail.Codec.Value
import AuditTrail.Commit

/-!
# Written forms of commits

Commit ids, commit metadata and snapshots as documents, and back.
-/

namespace AuditTrail

open Codec

namespace CommitId

/-- The written form. -/
def encode (id : CommitId) : Json := .obj [("major", .ofNat id.major), ("minor", .ofNat id.minor)]

/-- The id that a document stands for. -/
def decode? (room : Nat) (json : Json) : Option CommitId := do
  match ← record? room ["major", "minor"] [] json with
  | (_, [some major, some minor]) => some ⟨← natural? 64 major, ← natural? 32 minor⟩
  | _ => none

end CommitId

namespace Labels

/-- The written form. -/
def encode (labels : Labels) : Json :=
  .obj (labels.rows.map fun (name, text) => (name, .str text))

/-- The texts that an object stands for; the last text of a name stays. -/
def decode? (room : Nat) (json : Json) : Option Labels :=
  match room, json with
  | _ + 1, .obj fields =>
    (fields.mapM fun field => (text? field.2).map fun text => (field.1, text)).map Table.ofList
  | _, _ => none

end Labels

namespace CommitMetadata

/-- The written form. -/
def encode (metadata : CommitMetadata) : Json :=
  .obj [("id", metadata.id.encode), ("author", .str metadata.author),
    ("timestamp_ms", .ofNat metadata.timestamp), ("sequence", .ofNat metadata.sequence),
    ("properties", Labels.encode metadata.properties)]

/-- The metadata that a document stands for.  A missing sequence is zero, and missing properties
are none. -/
def decode? (room : Nat) (json : Json) : Option CommitMetadata := do
  match ← record? room ["id", "author", "timestamp_ms", "sequence", "properties"] [] json with
  | (room, [some id, some author, some timestamp, sequence, properties]) =>
    some
      { id := ← CommitId.decode? room id
        author := ← text? author
        timestamp := ← natural? 64 timestamp
        sequence := ← sequence.elim (some 0) (natural? 64)
        properties := ← properties.elim (some .empty) (Labels.decode? room) }
  | _ => none

end CommitMetadata

namespace SnapshotKind

/-- The kind of a name. -/
def ofName? (name : String) : Option SnapshotKind :=
  [initial, update, terminal].find? fun kind => kind.name == name

/-- The written form. -/
def encode (kind : SnapshotKind) : Json := .str kind.name

/-- The kind that a document stands for. -/
def decode? (room : Nat) (json : Json) : Option SnapshotKind :=
  (plainVariant? room json).bind ofName?

end SnapshotKind

namespace Snapshot

/-- The written form. -/
def encode (snapshot : Snapshot) : Json :=
  .obj [("global_id", snapshot.id.encode), ("type_name", .str snapshot.typeName),
    ("commit", snapshot.commit.encode), ("kind", snapshot.kind.encode),
    ("state", snapshot.state.encode), ("changed", list .str snapshot.changed),
    ("version", .ofNat snapshot.version), ("previous", optional CommitId.encode snapshot.previous)]

/-- The snapshot that a document stands for. -/
def decode? (room : Nat) (json : Json) : Option Snapshot := do
  match ← record? room
      ["global_id", "type_name", "commit", "kind", "state", "changed", "version", "previous"]
      ["previous"] json with
  | (room, [some id, some typeName, some commit, some kind, some state, some changed,
      some version, some previous]) =>
    some
      { id := ← GlobalId.decode? room id
        typeName := ← text? typeName
        commit := ← CommitMetadata.decode? room commit
        kind := ← SnapshotKind.decode? room kind
        state := ← State.decode? room state
        changed := ← list? (fun _ => text?) room changed
        version := ← natural? 64 version
        previous := ← optional? CommitId.decode? room previous }
  | _ => none

end Snapshot
end AuditTrail
