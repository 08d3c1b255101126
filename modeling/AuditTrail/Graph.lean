import AuditTrail.State
import AuditTrail.Table

/-!
# Graphs

A graph holds captured nodes, one per global id and in the order of the ids, together with the ids
from which the capture started.
-/

namespace AuditTrail

/-- One captured object. -/
structure Node where
  /-- Name of the node across versions. -/
  id : GlobalId
  /-- Name of the node's type. -/
  typeName : String
  /-- Captured properties. -/
  state : State
  deriving Inhabited

namespace Node

/-- Nodes are equal when id, type name and state are. -/
def same (left right : Node) : Bool :=
  left.id == right.id && left.typeName == right.typeName && left.state == right.state

instance : BEq Node := ⟨same⟩

end Node

/-- Captured nodes with the roots they were captured from. -/
structure Graph where
  /-- The ids the capture started from, in the order given. -/
  roots : List GlobalId
  /-- The nodes in the order of their ids. -/
  nodes : Table Node.id
  deriving Inhabited

namespace Graph

/-- The graph without nodes. -/
def withRoots (roots : List GlobalId) : Graph := ⟨roots, .empty⟩

/-- The graph of the given nodes; the last node of an id stays. -/
def ofNodes (roots : List GlobalId) (nodes : List Node) : Graph := ⟨roots, .ofList nodes⟩

/-- The node of an id. -/
def find? (graph : Graph) (id : GlobalId) : Option Node := graph.nodes.find? id

/-- Whether the id names a node. -/
def contains (graph : Graph) (id : GlobalId) : Bool := graph.nodes.contains id

/-- Add a node, replacing the node of the same id. -/
def insert (graph : Graph) (node : Node) : Graph := { graph with nodes := graph.nodes.put node }

/-- Remove the node of an id. -/
def remove (graph : Graph) (id : GlobalId) : Graph :=
  { graph with nodes := graph.nodes.erase id }

/-- Change the state of a node, if the id names one. -/
def updateState (graph : Graph) (id : GlobalId) (update : State → State) : Graph :=
  match graph.find? id with
  | none => graph
  | some node => graph.insert { node with state := update node.state }

/-- The ids of the nodes in order. -/
def ids (graph : Graph) : List GlobalId := graph.nodes.keys

/-- Number of nodes. -/
def size (graph : Graph) : Nat := graph.nodes.size

/-- Graphs are equal when roots and nodes are. -/
def same (left right : Graph) : Bool :=
  left.roots == right.roots && left.nodes.rows == right.nodes.rows

instance : BEq Graph := ⟨same⟩

end Graph
end AuditTrail
