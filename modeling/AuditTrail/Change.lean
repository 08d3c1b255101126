import AuditTrail.Edit

/-!
# Changes

A change says what happened to one node: it came into being, went away, or one of its properties
differs.  Changes can be inverted and printed.
-/

namespace AuditTrail

/-- A map entry whose value differs. -/
structure EntryChange where
  /-- Key of the entry. -/
  key : Captured
  /-- Value before. -/
  old : Captured
  /-- Value after. -/
  new : Captured
  deriving Inhabited

namespace EntryChange

/-- Entry changes are equal when all three parts are. -/
def same (left right : EntryChange) : Bool :=
  left.key == right.key && left.old == right.old && left.new == right.new

instance : BEq EntryChange := ⟨same⟩

/-- The same entry changing back. -/
def inverse (change : EntryChange) : EntryChange := ⟨change.key, change.new, change.old⟩

end EntryChange

/-- How a property differs. -/
inductive Delta where
  /-- One value gave way to another, with the printed forms of both. -/
  | value (old new : Captured) (oldText newText : String)
  /-- A reference was redirected, set or cleared. -/
  | reference (old new : Option GlobalId)
  /-- A list was edited. -/
  | list (edits : List Edit)
  /-- An array was edited. -/
  | array (edits : List Edit)
  /-- Elements came into a set and went out of it. -/
  | set (added removed : List Captured)
  /-- Entries of a map came in, went out, or have another value. -/
  | map (added removed : List (Captured × Captured)) (changed : List EntryChange)
  deriving Inhabited

namespace Delta

/-- Deltas are equal when they are of one kind with equal parts. -/
def same : Delta → Delta → Bool
  | value a b s t, value c d u v => a == c && b == d && s == u && t == v
  | reference a b, reference c d => a == c && b == d
  | list a, list b => a == b
  | array a, array b => a == b
  | set a b, set c d => a == c && b == d
  | map a b c, map d e f => a == d && b == e && c == f
  | _, _ => false

instance : BEq Delta := ⟨same⟩

/-- The delta of the opposite transition. -/
def inverse : Delta → Delta
  | value old new oldText newText => value new old newText oldText
  | reference old new => reference new old
  | list edits => list (Edit.invert edits)
  | array edits => array (Edit.invert edits)
  | set added removed => set removed added
  | map added removed changed => map removed added (changed.map EntryChange.inverse)

/-- A reference, or null where there is none. -/
def displayTarget : Option GlobalId → String
  | some id => id.display
  | none => "null"

/-- What follows the name of the property in the printed form of a change. -/
def display : Delta → String
  | value _ _ oldText newText => ": \x27" ++ oldText ++ "\x27 -> \x27" ++ newText ++ "\x27"
  | reference old new => ": reference " ++ displayTarget old ++ " -> " ++ displayTarget new
  | list edits | array edits => ":" ++ String.join (edits.map Edit.display)
  | set added removed =>
    ": added " ++ toString added.length ++ ", removed " ++ toString removed.length
  | map added removed changed =>
    ": added " ++ toString added.length ++ ", removed " ++ toString removed.length ++
      ", changed " ++ toString changed.length

end Delta

/-- What happened to a node. -/
inductive Change.Kind where
  /-- The node is only in the new graph. -/
  | created
  /-- The node is only in the old graph. -/
  | removed
  /-- A property of the node differs. -/
  | property (name : String) (delta : Delta)
  deriving Inhabited

/-- One change of one node. -/
structure Change where
  /-- The node it happened to. -/
  target : GlobalId
  /-- Name of the node's type. -/
  typeName : String
  /-- What happened. -/
  kind : Change.Kind
  deriving Inhabited

namespace Change

namespace Kind

/-- Kinds are equal when they are the same with equal parts. -/
def same : Kind → Kind → Bool
  | created, created => true
  | removed, removed => true
  | property name delta, property name' delta' => name == name' && delta == delta'
  | _, _ => false

instance : BEq Kind := ⟨same⟩

/-- What happens in the opposite transition. -/
def inverse : Kind → Kind
  | created => removed
  | removed => created
  | property name delta => property name delta.inverse

end Kind

/-- Changes are equal when node, type name and kind are. -/
def same (left right : Change) : Bool :=
  left.target == right.target && left.typeName == right.typeName && left.kind == right.kind

instance : BEq Change := ⟨same⟩

/-- The property that differs, if the change is one of a property. -/
def property? (change : Change) : Option String :=
  match change.kind with
  | .property name _ => some name
  | .created | .removed => none

/-- Whether the node came into being. -/
def isCreation (change : Change) : Bool :=
  match change.kind with
  | .created => true
  | _ => false

/-- Whether the node went away. -/
def isRemoval (change : Change) : Bool :=
  match change.kind with
  | .removed => true
  | _ => false

/-- The change of the opposite transition. -/
def inverse (change : Change) : Change := { change with kind := change.kind.inverse }

/-- The printed form. -/
def display (change : Change) : String :=
  match change.kind with
  | .created => "new object " ++ change.target.display
  | .removed => "object removed " ++ change.target.display
  | .property name delta => change.target.display ++ "." ++ name ++ delta.display

end Change
end AuditTrail
