import AuditTrail.Codec.Shape
import AuditTrail.State

/-!
# Written forms of values

Scalars, global ids, captured values and states as documents, and back.
-/

namespace AuditTrail

open Codec

namespace Scalar

/-- The written form. -/
def encode : Scalar → Json
  | bool value => variant "Bool" (.bool value)
  | int value => variant "Int" (.ofInt value)
  | float word => variant "Float" (Codec.float word)
  | text value => variant "Text" (.str value)

/-- The scalar that a document stands for. -/
def decode? (room : Nat) (json : Json) : Option Scalar := do
  let (_, name, content) ← variant? room json
  match name with
  | "Bool" => (bool? content).map bool
  | "Int" => (signed? content).map int
  | "Float" => (float? content).map float
  | "Text" => (text? content).map text
  | _ => none

end Scalar

namespace LocalId

/-- The written form. -/
def encode : LocalId → Json
  | int value => variant "Int" (.ofInt value)
  | text value => variant "Text" (.str value)

/-- The identity that a document stands for. -/
def decode? (room : Nat) (json : Json) : Option LocalId := do
  let (_, name, content) ← variant? room json
  match name with
  | "Int" => (signed? content).map int
  | "Text" => (text? content).map text
  | _ => none

end LocalId

namespace GlobalId

/-- The written form. -/
def encode : GlobalId → Json
  | entity typeName localId =>
    variant "Instance" (.obj [("type_name", .str typeName), ("local_id", localId.encode)])
  | owned owner fragment =>
    variant "ValueObject" (.obj [("owner", owner.encode), ("fragment", .str fragment)])
  | unbounded typeName => variant "Unbounded" (.obj [("type_name", .str typeName)])

/-- The id that a document stands for. -/
def decode? : Nat → Json → Option GlobalId
  | room + 2, .obj [(name, content)] =>
    match name with
    | "Instance" => do
      match ← record? (room + 1) ["type_name", "local_id"] [] content with
      | (_, [some typeName, some localId]) =>
        some (entity (← text? typeName) (← LocalId.decode? room localId))
      | _ => none
    | "ValueObject" => do
      match ← record? (room + 1) ["owner", "fragment"] [] content with
      | (_, [some owner, some fragment]) =>
        let owner ← decode? room owner
        some (owned owner (← text? fragment))
      | _ => none
    | "Unbounded" => do
      match ← record? (room + 1) ["type_name"] [] content with
      | (_, [some typeName]) => (text? typeName).map unbounded
      | _ => none
    | _ => none
  | _, _ => none

end GlobalId

namespace Value

mutual

/-- The written form of a captured value. -/
def encode : Captured → Json
  | null => .str "Null"
  | scalar leaf => variant "Scalar" leaf.encode
  | ref id => variant "Ref" id.encode
  | seq items => variant "Collection" (.arr (encodeItems items))
  | map entries => variant "Map" (.arr (encodeEntries entries))

/-- The written forms of elements. -/
def encodeItems : List Captured → List Json
  | [] => []
  | item :: rest => encode item :: encodeItems rest

/-- The written forms of entries. -/
def encodeEntries : List (Captured × Captured) → List Json
  | [] => []
  | (key, value) :: rest => .arr [encode key, encode value] :: encodeEntries rest

end

/-- The captured value that a document stands for. -/
def decode? : Nat → Json → Option Captured
  | _, .str name => if name = "Null" then some null else none
  | room + 1, .obj [(name, content)] =>
    match name, content with
    | "Null", .null => some null
    | "Scalar", content => (Scalar.decode? room content).map scalar
    | "Ref", content => (GlobalId.decode? room content).map ref
    | "Collection", .arr items =>
      match room with
      | 0 => none
      | room + 1 => (items.mapM (decode? room)).map seq
    | "Map", .arr entries =>
      match room with
      | 0 => none
      | 1 => if entries.isEmpty then some (map []) else none
      | room + 2 =>
        (entries.mapM fun (entry : Json) =>
          match entry with
          | .arr [key, value] => do
            let key ← decode? room key
            let value ← decode? room value
            some (key, value)
          | _ => none).map map
    | _, _ => none
  | _, _ => none

end Value

namespace State

/-- The written form of an entry. -/
def encodeEntry (entry : String × Captured) : Json := pair .str Value.encode entry

/-- The written form. -/
def encode (state : State) : Json := .obj [("entries", list encodeEntry state.entries)]

/-- The entry that a document stands for. -/
def decodeEntry? (room : Nat) (json : Json) : Option (String × Captured) :=
  pair? (fun _ => text?) Value.decode? room json

/-- The state that a document stands for. -/
def decode? (room : Nat) (json : Json) : Option State := do
  match ← record? room ["entries"] [] json with
  | (room, [some entries]) => (list? decodeEntry? room entries).map State.mk
  | _ => none

end State
end AuditTrail
