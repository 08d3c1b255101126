import AuditTrail.Diff
import AuditTrail.Proofs.Table

/-!
# Looking up nodes of a graph

Every operation on a graph changes the look-up of one id only.
-/

namespace AuditTrail.Graph

variable (graph : Graph) {id other : GlobalId}

theorem contains_eq : graph.contains id = (graph.find? id).isSome := Table.contains_eq _ _

variable {graph} in
theorem id_of_find? {node : Node} (found : graph.find? id = some node) : node.id = id :=
  Table.key_of_find? found

variable {graph} in
theorem mem_rows_of_find? {node : Node} (found : graph.find? id = some node) :
    node ∈ graph.nodes.rows :=
  (Table.find?_eq_some_iff.mp found).1

variable {graph} in
theorem mem_ids_iff : id ∈ graph.ids ↔ (graph.find? id).isSome := Table.isSome_find?_iff.symm

/-- Graphs in which the same ids name nodes list the same ids. -/
theorem ids_eq_of_isSome_eq {left right : Graph}
    (same : ∀ id, (left.find? id).isSome = (right.find? id).isSome) : left.ids = right.ids :=
  Table.keys_eq_of_isSome_eq same

theorem find?_insert (node : Node) :
    (graph.insert node).find? id = if id = node.id then some node else graph.find? id := by
  split
  next same => rw [same]; exact Table.find?_put_self _ node
  next distinct => exact Table.find?_put_of_ne _ distinct

theorem find?_remove :
    (graph.remove id).find? other = if other = id then none else graph.find? other := by
  split
  next same => rw [same]; exact Table.find?_erase_self _ id
  next distinct => exact Table.find?_erase_of_ne _ distinct

theorem find?_updateState (update : State → State) :
    (graph.updateState id update).find? other =
      if other = id then
        (graph.find? id).map fun node => { node with state := update node.state }
      else graph.find? other := by
  unfold updateState
  cases found : graph.find? id with
  | none =>
      by_cases same : other = id
      · simp [same, found]
      · simp [same]
  | some node =>
      have named : node.id = id := id_of_find? found
      simp only [find?_insert, named, Option.map_some]

end AuditTrail.Graph

namespace AuditTrail

/-- What a change makes of its own node. -/
def Change.replayNode (node : Option Node) (change : Change) : Option Node :=
  match change.kind with
  | .created => node.or (some ⟨change.target, change.typeName, .empty⟩)
  | .removed => none
  | .property name delta =>
    node.map fun node =>
      { node with state := node.state.insert name (delta.replay (node.state.get name)) }

/-- A change acts on its own node only. -/
theorem Change.find?_replay (graph : Graph) (change : Change) (id : GlobalId) :
    (change.replay graph).find? id =
      if change.target = id then change.replayNode (graph.find? id) else graph.find? id := by
  obtain ⟨target, typeName, kind⟩ := change
  cases kind with
  | created =>
      simp only [replay, replayNode, graph.contains_eq]
      by_cases same : target = id
      · subst same
        cases found : graph.find? target with
        | none => simp [Graph.find?_insert]
        | some node => simp [found]
      · rw [if_neg same]
        split
        · rfl
        · rw [Graph.find?_insert, if_neg (Ne.symm same)]
  | removed =>
      simp only [replay, replayNode, Graph.find?_remove, eq_comm]
  | property name delta =>
      simp only [replay, replayNode, Graph.find?_updateState]
      by_cases same : target = id
      · subst same
        simp
      · rw [if_neg (Ne.symm same), if_neg same]

/-- A diff acts on each node through the changes of that node alone. -/
theorem Diff.find?_replay (diff : Diff) (graph : Graph) (id : GlobalId) :
    (diff.replay graph).find? id =
      (diff.changes.filter (·.target = id)).foldl Change.replayNode (graph.find? id) := by
  obtain ⟨changes⟩ := diff
  unfold replay
  induction changes generalizing graph with
  | nil => rfl
  | cons change changes induction =>
      simp only at induction
      rw [List.foldl_cons, induction, Change.find?_replay]
      by_cases same : change.target = id
      · rw [if_pos same, List.filter_cons_of_pos (by simpa using same), List.foldl_cons]
      · rw [if_neg same, List.filter_cons_of_neg (by simpa using same)]

end AuditTrail
