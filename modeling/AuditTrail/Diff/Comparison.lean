import AuditTrail.Diff
import AuditTrail.Edit.Alignment
import AuditTrail.Schema.TypeTable

/-!
# Comparing graphs

Two graphs are compared node by node and each pair of nodes property by property, as the declared
types say.  Properties of unregistered types are compared by the shape of what was captured.

For each node the change of the node itself comes first, then its properties in order of
declaration, those of the new node's type before those that only the old one's has.
-/

namespace AuditTrail

open Schema

/-- How graphs are compared. -/
structure DiffOptions where
  /-- How the elements of lists are matched. -/
  alignment : Alignment
  /-- Whether the properties of a new node are reported as changes from null. -/
  initialChanges : Bool
  /-- Whether the properties of a removed node are reported as changes to null. -/
  terminalChanges : Bool
  deriving DecidableEq, Inhabited

namespace Comparison

/-- Outcome of comparing two values as containers. -/
inductive Outcome where
  /-- One of them is no such container. -/
  | mismatch
  /-- They are equal. -/
  | same
  /-- They differ. -/
  | differs (delta : Delta)

/-- No edits mean that nothing differs. -/
def ofEdits (wrap : List Edit → Delta) (edits : List Edit) : Outcome :=
  if edits.isEmpty then .same else .differs (wrap edits)

/-- Compare two sets: each element is looked for on the other side. -/
def compareSets (item : Classified) (left right : List Captured) : Outcome :=
  let added := right.filter fun r => !left.any fun l => item.equal l r
  let removed := left.filter fun l => !right.any fun r => item.equal l r
  if added.isEmpty && removed.isEmpty then .same else .differs (.set added removed)

/-- Compare two collections of the same kind. -/
def compareCollections (alignment : Alignment) (kind : CollectionKind) (item : Classified)
    (left right : List Captured) : Outcome :=
  match kind with
  | .list => ofEdits .list (alignment.script item.equal left right)
  | .array => ofEdits .array (Alignment.positional.script item.equal left right)
  | .set => compareSets item left right

/-- The value of the first entry with a key. -/
def valueAt? (entries : List (Captured × Captured)) (key : Captured) : Option Captured :=
  (entries.find? fun entry => entry.1 == key).map (·.2)

/-- Sort by the printed form of keys, keeping the order of equal ones. -/
def sortByKey {α : Type} (key : α → Captured) (items : List α) : List α :=
  items.mergeSort fun a b => (compare (key a).display (key b).display).isLE

/-- Compare two maps: each key is looked for on the other side. -/
def compareMaps (item : Classified) (left right : List (Captured × Captured)) : Outcome :=
  let added := right.filter fun entry => (valueAt? left entry.1).isNone
  let removed := left.filter fun entry => (valueAt? right entry.1).isNone
  let changed := left.filterMap fun entry =>
    match valueAt? right entry.1 with
    | none => none
    | some new => if item.equal entry.2 new then none else some ⟨entry.1, entry.2, new⟩
  if added.isEmpty && removed.isEmpty && changed.isEmpty then .same
  else
    .differs (.map (sortByKey (·.1) added) (sortByKey (·.1) removed)
      (sortByKey EntryChange.key changed))

/-- Compare two values as containers of a type. -/
def compareContainers (alignment : Alignment) (type : Classified) (left right : Captured) :
    Outcome :=
  match type with
  | .collection kind item =>
    match left.elements?, right.elements? with
    | some left, some right => compareCollections alignment kind item left right
    | _, _ => .mismatch
  | .mapping _ item =>
    match left.entries?, right.entries? with
    | some left, some right => compareMaps item left right
    | _, _ => .mismatch
  | _ => .mismatch

/-- Whether a value can be one side of a redirected reference. -/
def isEdge : Captured → Bool
  | .ref _ | .null => true
  | _ => false

/-- The delta of one value giving way to another. -/
def valueDelta (type : Classified) (left right : Captured) : Delta :=
  .value left right (type.display left) (type.display right)

/-- Compare two values as a whole. -/
def compareLeaves (type : Classified) (left right : Captured) : Option Delta :=
  if type.equal left right then none
  else if isEdge left && isEdge right then some (.reference left.target? right.target?)
  else some (valueDelta type left right)

/-- The container type that captured values of an unregistered type suggest. -/
def inferred? : Captured → Captured → Option Classified
  | .seq _, _ => some (.collection .list (.unknown ""))
  | _, .seq _ => some (.collection .list (.unknown ""))
  | .map _, _ => some (.mapping (.unknown "") (.unknown ""))
  | _, .map _ => some (.mapping (.unknown "") (.unknown ""))
  | _, _ => none

/-- Compare two values as containers of a type, or as a whole if they do not have its shape. -/
def compareShaped (alignment : Alignment) (shape type : Classified) (left right : Captured) :
    Option Delta :=
  match compareContainers alignment shape left right with
  | .differs delta => some delta
  | .same => none
  | .mismatch => compareLeaves type left right

/-- Compare two values of a property of a declared type. -/
def compareValues (alignment : Alignment) (type : Classified) (left right : Captured) :
    Option Delta :=
  match type with
  | .ignored => none
  | .custom rule => if rule left right then none else some (valueDelta type left right)
  | .collection _ _ | .mapping _ _ => compareShaped alignment type type left right
  | .unknown _ =>
    match inferred? left right with
    | some shape => compareShaped alignment shape type left right
    | none => compareLeaves type left right
  | .value _ _ | .reference _ => compareLeaves type left right

/-- Append the properties whose names are new. -/
def addNew (known : List (String × Classified)) (more : List (String × Classified)) :
    List (String × Classified) :=
  more.foldl
    (fun known property =>
      if known.any fun other => other.1 == property.1 then known else known ++ [property])
    known

/-- The mapped properties of a managed type with what their types turn out to be. -/
def declared (types : TypeTable) (managed : ManagedType) : List (String × Classified) :=
  managed.properties.map fun property => (property.name, types.classify property.type)

/-- The stored properties of a node, of which nothing is known. -/
def stored (node : Node) : List (String × Classified) :=
  node.state.names.map fun name => (name, .unknown "")

/-- The managed type of a node, if it is registered. -/
def typeOf? (types : TypeTable) (node : Option Node) : Option ManagedType :=
  node.bind fun node => types.managedByName? node.typeName

/-- The properties to compare.  If neither type is registered, they are the stored ones, the old
node's first. -/
def comparedProperties (types : TypeTable) (old new : Option Node) :
    List (String × Classified) :=
  match typeOf? types new, typeOf? types old with
  | none, none => [old, new].foldl (fun known node => addNew known ((node.map stored).getD [])) []
  | newType, oldType =>
    [newType, oldType].foldl
      (fun known managed => addNew known ((managed.map (declared types)).getD [])) []

/-- The state of a node; a missing node has only null properties. -/
def stateOf (node : Option Node) : State := (node.map Node.state).getD .empty

/-- The changed properties of a pair of nodes, one of which may be missing. -/
def compareNodes (types : TypeTable) (alignment : Alignment) (old new : Option Node) :
    List Change :=
  match new <|> old with
  | none => []
  | some node =>
    (comparedProperties types old new).filterMap fun (name, type) =>
      (compareValues alignment type ((stateOf old).get name) ((stateOf new).get name)).map
        fun delta => ⟨node.id, node.typeName, .property name delta⟩

/-- All changes of one id. -/
def compareAt (types : TypeTable) (options : DiffOptions) (old new : Graph) (id : GlobalId) :
    List Change :=
  match old.find? id, new.find? id with
  | none, some node =>
    ⟨id, node.typeName, .created⟩ ::
      if options.initialChanges then compareNodes types options.alignment none (some node) else []
  | some node, none =>
    ⟨id, node.typeName, .removed⟩ ::
      if options.terminalChanges then compareNodes types options.alignment (some node) none else []
  | some left, some right => compareNodes types options.alignment (some left) (some right)
  | none, none => []

/-- The ids of both graphs in order, without repetition. -/
def allIds (old new : Graph) : List GlobalId :=
  (Table.ofList (old.ids ++ new.ids) : Table (id : GlobalId → GlobalId)).rows

end Comparison

/-- The changes that turn the old graph into the new one. -/
def Diff.between (types : TypeTable) (options : DiffOptions) (old new : Graph) : Diff :=
  ⟨(Comparison.allIds old new).flatMap (Comparison.compareAt types options old new)⟩

end AuditTrail
