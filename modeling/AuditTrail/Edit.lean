import AuditTrail.Value

/-!
# Edit scripts

An edit script turns one sequence into another, edit by edit.  Positions refer to the sequence as
it is being edited.
-/

namespace AuditTrail

/-- One edit of a sequence of captured values. -/
inductive Edit where
  /-- An element comes in at a position. -/
  | insert (index : Nat) (value : Captured)
  /-- The element at a position goes out. -/
  | remove (index : Nat) (value : Captured)
  /-- The element at a position gives way to another one. -/
  | replace (index : Nat) (old new : Captured)
  deriving Inhabited

namespace Edit

/-- The position of an edit. -/
def index : Edit → Nat
  | insert index _ | remove index _ | replace index _ _ => index

/-- Edits are equal when kind, position and elements are. -/
def same : Edit → Edit → Bool
  | insert i a, insert j b => i == j && a == b
  | remove i a, remove j b => i == j && a == b
  | replace i a b, replace j c d => i == j && a == c && b == d
  | _, _ => false

instance : BEq Edit := ⟨same⟩

/-- The edit that undoes this one at the same position. -/
def inverse : Edit → Edit
  | insert index value => remove index value
  | remove index value => insert index value
  | replace index old new => replace index new old

/-- Carry out an edit.  An insertion beyond the end goes to the end; other edits beyond the end
change nothing. -/
def apply (items : List Captured) : Edit → List Captured
  | insert index value => items.insertIdx (min index items.length) value
  | remove index _ => items.eraseIdx index
  | replace index _ new => items.set index new

/-- Carry out a script. -/
def applyAll (items : List Captured) (script : List Edit) : List Captured := script.foldl apply items

/-- The same edit at another position. -/
def moveTo (index : Nat) : Edit → Edit
  | insert _ value => insert index value
  | remove _ value => remove index value
  | replace _ old new => replace index old new

/-- Invert a script that is written from left to right, keeping that order.  A position of the
edited sequence lies `removed - added` further in the old one, counting the edits before it. -/
def invertFrom (added removed : Nat) : List Edit → List Edit
  | [] => []
  | edit :: rest =>
    let inverted := edit.inverse.moveTo (edit.index + removed - added)
    match edit with
    | insert _ _ => inverted :: invertFrom (added + 1) removed rest
    | remove _ _ => inverted :: invertFrom added (removed + 1) rest
    | replace _ _ _ => inverted :: invertFrom added removed rest

/-- The script that undoes a script written from left to right. -/
def invert (script : List Edit) : List Edit := invertFrom 0 0 script

/-- The printed form, with a space in front. -/
def display : Edit → String
  | insert index value => " +[" ++ toString index ++ "] " ++ value.display
  | remove index value => " -[" ++ toString index ++ "] " ++ value.display
  | replace index old new =>
    " [" ++ toString index ++ "] " ++ old.display ++ " -> " ++ new.display

end Edit
end AuditTrail
