import AuditTrail.Change
import AuditTrail.Graph

/-!
# Diffs

A diff lists the changes from one graph to another in the order of the nodes.  It can be replayed
on the old graph, inverted, grouped by node and printed.
-/

namespace AuditTrail

/-- Changes from one graph to another. -/
structure Diff where
  /-- The changes in order. -/
  changes : List Change
  deriving Inhabited

/-- The changes of one node. -/
structure ChangeGroup where
  /-- The node. -/
  target : GlobalId
  /-- Its changes in order. -/
  changes : List Change
  deriving Inhabited

namespace Diff

/-- Diffs are equal when their changes are. -/
def same (left right : Diff) : Bool := left.changes == right.changes

instance : BEq Diff := ⟨same⟩

/-- Whether nothing changed. -/
def isEmpty (diff : Diff) : Bool := diff.changes.isEmpty

/-- Number of changes. -/
def size (diff : Diff) : Nat := diff.changes.length

/-- The diff of the opposite transition. -/
def inverse (diff : Diff) : Diff := ⟨diff.changes.map Change.inverse⟩

/-- Add a change behind the others of its node. -/
def addToGroup (groups : Table ChangeGroup.target) (change : Change) :
    Table ChangeGroup.target :=
  match groups.find? change.target with
  | none => groups.put ⟨change.target, [change]⟩
  | some group => groups.put ⟨group.target, group.changes ++ [change]⟩

/-- The changes grouped by node, in the order of the nodes. -/
def byNode (diff : Diff) : Table ChangeGroup.target := diff.changes.foldl addToGroup .empty

/-- The printed form: a line for each node and one for each of its changes. -/
def display (diff : Diff) : String :=
  if diff.isEmpty then "Diff: <empty>"
  else
    "Diff:" ++ String.join (diff.byNode.rows.map fun group =>
      "\n* " ++ group.target.display ++
        String.join (group.changes.map fun change => "\n  - " ++ change.display))

end Diff

namespace Delta

/-- Give the first entry of the changed key its new value. -/
def changeEntry (change : EntryChange) :
    List (Captured × Captured) → List (Captured × Captured)
  | [] => []
  | entry :: rest =>
    if entry.1 == change.key then (entry.1, change.new) :: rest
    else entry :: changeEntry change rest

/-- Replay a delta on the value of a property.  A value that is no container reads as an empty
one. -/
def replay (current : Captured) : Delta → Captured
  | value _ new _ _ => new
  | reference _ new =>
    match new with
    | some id => .ref id
    | none => .null
  | list edits | array edits => .seq (Edit.applyAll (current.elements?.getD []) edits)
  | set added removed =>
    .seq (((current.elements?.getD []).filter fun item => !removed.contains item) ++ added)
  | map added removed changed =>
    let kept := (current.entries?.getD []).filter fun entry =>
      !removed.any fun other => other.1 == entry.1
    .map (changed.foldl (fun entries change => changeEntry change entries) kept ++ added)

end Delta

namespace Change

/-- Replay a change on a graph.  A node that comes into being is empty, and a change of a node that
is not there changes nothing. -/
def replay (graph : Graph) (change : Change) : Graph :=
  match change.kind with
  | .created =>
    if graph.contains change.target then graph
    else graph.insert ⟨change.target, change.typeName, .empty⟩
  | .removed => graph.remove change.target
  | .property name delta =>
    graph.updateState change.target fun state => state.insert name (delta.replay (state.get name))

end Change

/-- Replay all changes on a graph. -/
def Diff.replay (diff : Diff) (graph : Graph) : Graph := diff.changes.foldl Change.replay graph

end AuditTrail
