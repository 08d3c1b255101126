import AuditTrail.Capture.Identity
import AuditTrail.Digest.Blake3

/-!
# Content of value objects

A value object in a set is named by what it contains.  The content text writes it out with all
its mapped properties, following value objects but naming entities by their ids, and the digest of
the text is the name.  A value object that occurs inside itself is written as a cycle.
-/

namespace AuditTrail.Capture

open Schema

section Text

variable (writeRef : Slot → Except CaptureError String)

mutual

/-- The content text of a value, given that of references. -/
def valueContent : Live → Except CaptureError String
  | .null => .ok "null"
  | .scalar leaf => .ok leaf.content
  | .ref slot => writeRef slot
  | .seq items => do
    let written ← itemsContent items
    .ok ("[" ++ written ++ "]")
  | .map entries => do
    let written ← entriesContent entries
    .ok ("\x7b" ++ written ++ "\x7d")

/-- The content text of elements, a comma after each. -/
def itemsContent : List Live → Except CaptureError String
  | [] => .ok ""
  | item :: rest => do
    let first ← valueContent item
    let others ← itemsContent rest
    .ok (first ++ "," ++ others)

/-- The content text of entries, a comma after each. -/
def entriesContent : List (Live × Live) → Except CaptureError String
  | [] => .ok ""
  | (key, value) :: rest => do
    let key ← valueContent key
    let value ← valueContent value
    let others ← entriesContent rest
    .ok (key ++ ":" ++ value ++ "," ++ others)

end

/-- The content text of the properties that are set, in order of declaration. -/
def propertiesContent (object : Instance) : List Property → Except CaptureError String
  | [] => .ok ""
  | property :: rest => do
    match object.get? property.name with
    | none => propertiesContent object rest
    | some value =>
      let value ← valueContent writeRef value
      let others ← propertiesContent object rest
      .ok (property.name ++ "=" ++ value ++ ";" ++ others)

end Text

/-- The content text of a reference.  `path` lists the value objects that are being written and
`room` counts the instances that are not on it; when there are none, the reference leads back to
the path. -/
def refContent (types : TypeTable) (heap : Heap) :
    Nat → List Slot → Slot → Except CaptureError String
  | room, path, slot => do
    match ← referentAt types heap slot with
    | .skipped => .ok "null"
    | .entity id => .ok ("@" ++ id.display)
    | .valueObject object managed =>
      if path.contains slot then .ok "<cycle>"
      else
        match room with
        | 0 => .ok "<cycle>"
        | room + 1 =>
          let written ←
            propertiesContent (refContent types heap room (slot :: path)) object managed.properties
          .ok (managed.typeName ++ "(" ++ written ++ ")")

/-- The content text of a value. -/
def content (types : TypeTable) (heap : Heap) (value : Live) : Except CaptureError String :=
  valueContent (refContent types heap heap.size []) value

/-- Number of hexadecimal digits that name a content. -/
def contentNameLength : Nat := 16

/-- The name of a content: the first digits of its digest. -/
def contentName (types : TypeTable) (heap : Heap) (value : Live) :
    Except CaptureError String := do
  let text ← content types heap value
  .ok (String.ofList ((Blake3.hexDigest text).toList.take contentNameLength))

end AuditTrail.Capture
