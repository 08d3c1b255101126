import AuditTrail.Codec.Value
import AuditTrail.Diff

/-!
# Written forms of changes

Edits, changes and diffs as documents, and back.
-/

namespace AuditTrail

open Codec

namespace Edit

/-- The written form. -/
def encode : Edit → Json
  | insert index value =>
    variant "ValueAdded" (.obj [("index", .ofNat index), ("value", value.encode)])
  | remove index value =>
    variant "ValueRemoved" (.obj [("index", .ofNat index), ("value", value.encode)])
  | replace index old new =>
    variant "ElementValueChange"
      (.obj [("index", .ofNat index), ("left", old.encode), ("right", new.encode)])

/-- The position and the element of an insertion or removal. -/
def decodeElement? (room : Nat) (json : Json) : Option (Nat × Captured) := do
  match ← record? room ["index", "value"] [] json with
  | (room, [some index, some value]) =>
    some (← natural? 64 index, ← Value.decode? room value)
  | _ => none

/-- The position and the elements of a replacement. -/
def decodeReplacement? (room : Nat) (json : Json) : Option Edit := do
  match ← record? room ["index", "left", "right"] [] json with
  | (room, [some index, some old, some new]) =>
    some (replace (← natural? 64 index) (← Value.decode? room old) (← Value.decode? room new))
  | _ => none

/-- The edit that a document stands for. -/
def decode? (room : Nat) (json : Json) : Option Edit := do
  let (room, name, content) ← variant? room json
  match name with
  | "ValueAdded" => (decodeElement? room content).map fun (index, value) => insert index value
  | "ValueRemoved" => (decodeElement? room content).map fun (index, value) => remove index value
  | "ElementValueChange" => decodeReplacement? room content
  | _ => none

end Edit

namespace EntryChange

/-- The written form. -/
def encode (change : EntryChange) : Json :=
  .obj [("key", change.key.encode), ("left", change.old.encode), ("right", change.new.encode)]

/-- The entry change that a document stands for. -/
def decode? (room : Nat) (json : Json) : Option EntryChange := do
  match ← record? room ["key", "left", "right"] [] json with
  | (room, [some key, some old, some new]) =>
    some ⟨← Value.decode? room key, ← Value.decode? room old, ← Value.decode? room new⟩
  | _ => none

end EntryChange

namespace Change.Kind

/-- The written form of map entries. -/
def encodeEntries (entries : List (Captured × Captured)) : Json :=
  list (pair Value.encode Value.encode) entries

/-- The map entries that a document stands for. -/
def decodeEntries? (room : Nat) (json : Json) : Option (List (Captured × Captured)) :=
  list? (pair? Value.decode? Value.decode?) room json

/-- The written form. -/
def encode : Change.Kind → Json
  | created => .str "NewObject"
  | removed => .str "ObjectRemoved"
  | property name (.value old new oldText newText) =>
    variant "ValueChange"
      (.obj [("property", .str name), ("left", old.encode), ("right", new.encode),
        ("left_display", .str oldText), ("right_display", .str newText)])
  | property name (.reference old new) =>
    variant "ReferenceChange"
      (.obj [("property", .str name), ("left", optional GlobalId.encode old),
        ("right", optional GlobalId.encode new)])
  | property name (.list edits) =>
    variant "ListChange" (.obj [("property", .str name), ("changes", list Edit.encode edits)])
  | property name (.array edits) =>
    variant "ArrayChange" (.obj [("property", .str name), ("changes", list Edit.encode edits)])
  | property name (.set added gone) =>
    variant "SetChange"
      (.obj [("property", .str name), ("added", list Value.encode added),
        ("removed", list Value.encode gone)])
  | property name (.map added gone changed) =>
    variant "MapChange"
      (.obj [("property", .str name), ("added", encodeEntries added),
        ("removed", encodeEntries gone), ("changed", list EntryChange.encode changed)])

/-- The changed value that a document stands for. -/
def decodeValue? (room : Nat) (json : Json) : Option Change.Kind := do
  match ← record? room ["property", "left", "right", "left_display", "right_display"] [] json with
  | (room, [some name, some old, some new, some oldText, some newText]) =>
    some (property (← text? name)
      (.value (← Value.decode? room old) (← Value.decode? room new) (← text? oldText)
        (← text? newText)))
  | _ => none

/-- The redirected reference that a document stands for. -/
def decodeReference? (room : Nat) (json : Json) : Option Change.Kind := do
  match ← record? room ["property", "left", "right"] ["left", "right"] json with
  | (room, [some name, some old, some new]) =>
    some (property (← text? name)
      (.reference (← optional? GlobalId.decode? room old) (← optional? GlobalId.decode? room new)))
  | _ => none

/-- The edited sequence that a document stands for. -/
def decodeEdits? (wrap : List Edit → Delta) (room : Nat) (json : Json) : Option Change.Kind := do
  match ← record? room ["property", "changes"] [] json with
  | (room, [some name, some edits]) =>
    some (property (← text? name) (wrap (← list? Edit.decode? room edits)))
  | _ => none

/-- The changed set that a document stands for. -/
def decodeSet? (room : Nat) (json : Json) : Option Change.Kind := do
  match ← record? room ["property", "added", "removed"] [] json with
  | (room, [some name, some added, some gone]) =>
    some (property (← text? name)
      (.set (← list? Value.decode? room added) (← list? Value.decode? room gone)))
  | _ => none

/-- The changed map that a document stands for. -/
def decodeMap? (room : Nat) (json : Json) : Option Change.Kind := do
  match ← record? room ["property", "added", "removed", "changed"] [] json with
  | (room, [some name, some added, some gone, some changed]) =>
    some (property (← text? name)
      (.map (← decodeEntries? room added) (← decodeEntries? room gone)
        (← list? EntryChange.decode? room changed)))
  | _ => none

/-- The kind that a document stands for. -/
def decode? (room : Nat) (json : Json) : Option Change.Kind :=
  match plainVariant? room json with
  | some "NewObject" => some created
  | some "ObjectRemoved" => some removed
  | _ => do
    let (room, name, content) ← variant? room json
    match name with
    | "ValueChange" => decodeValue? room content
    | "ReferenceChange" => decodeReference? room content
    | "ListChange" => decodeEdits? .list room content
    | "ArrayChange" => decodeEdits? .array room content
    | "SetChange" => decodeSet? room content
    | "MapChange" => decodeMap? room content
    | _ => none

end Change.Kind

namespace Change

/-- The written form. -/
def encode (change : Change) : Json :=
  .obj [("affected", change.target.encode), ("type_name", .str change.typeName),
    ("kind", change.kind.encode)]

/-- The change that a document stands for. -/
def decode? (room : Nat) (json : Json) : Option Change := do
  match ← record? room ["affected", "type_name", "kind"] [] json with
  | (room, [some target, some typeName, some kind]) =>
    some ⟨← GlobalId.decode? room target, ← text? typeName, ← Kind.decode? room kind⟩
  | _ => none

end Change

namespace Diff

/-- The written form. -/
def encode (diff : Diff) : Json := .obj [("changes", list Change.encode diff.changes)]

/-- The diff that a document stands for. -/
def decode? (room : Nat) (json : Json) : Option Diff := do
  match ← record? room ["changes"] [] json with
  | (room, [some changes]) => (list? Change.decode? room changes).map Diff.mk
  | _ => none

end Diff
end AuditTrail
