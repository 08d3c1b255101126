import AuditTrail.Proofs.Capture.Naming

/-!
# Traces of captures

A capture that ends leaves its names behind.  With these names every node holds what the instance at
some slot holds, and references lead from the root to every node.
-/

namespace AuditTrail

open Schema

namespace Capture

section Twins

variable (types : TypeTable) (heap : Heap)

/-- Draining, with the walk that is left at its end. -/
def drainWalk : Nat → Walk → Graph → Except CaptureError (Graph × Walk)
  | room, walk, graph =>
    match walk.pending.dropWhile fun entry => graph.contains entry.2 with
    | [] => .ok (graph, walk)
    | (slot, id) :: rest =>
      match room with
      | 0 => .error (.dangling slot)
      | room + 1 => do
        let (node, walk) ← captureNode types heap slot id { walk with pending := rest }
        drainWalk room walk (graph.insert node)

/-- Capturing, with the walk that is left at its end. -/
def captureWalk (roots : List Slot) : Except CaptureError (Graph × Walk) := do
  let (ids, walk) ← enter types heap roots .empty
  drainWalk types heap heap.size walk (.withRoots ids)

variable {types heap}

theorem drain_eq (room : Nat) (walk : Walk) (graph : Graph) :
    drain types heap room walk graph = (drainWalk types heap room walk graph).map Prod.fst := by
  induction room generalizing walk graph with
  | zero =>
      rw [drain.eq_def, drainWalk.eq_def]
      simp only
      cases walk.pending.dropWhile fun entry => graph.contains entry.2 <;> rfl
  | succ room induction =>
      rw [drain.eq_def, drainWalk.eq_def]
      simp only
      cases walk.pending.dropWhile fun entry => graph.contains entry.2 with
      | nil => rfl
      | cons entry rest =>
          simp only
          cases captureNode types heap entry.1 entry.2 { walk with pending := rest } with
          | error => rfl
          | ok found => exact induction found.2 (graph.insert found.1)

theorem capture_eq (roots : List Slot) :
    capture types heap roots = (captureWalk types heap roots).map Prod.fst := by
  unfold capture captureWalk
  cases enter types heap roots .empty with
  | error => rfl
  | ok entered => exact drain_eq heap.size entered.2 (.withRoots entered.1)

theorem capture_eq_ok_iff {roots : List Slot} {graph : Graph} :
    capture types heap roots = .ok graph ↔
      ∃ last, captureWalk types heap roots = .ok (graph, last) := by
  rw [capture_eq]
  cases captureWalk types heap roots with
  | error => simp [Except.map]
  | ok outcome =>
      simp only [Except.map, Except.ok.injEq]
      exact ⟨fun same => ⟨outcome.2, by rw [← same]⟩, fun ⟨last, same⟩ => by rw [same]⟩

/-- Draining is done, or it captures the next object that waits and goes on. -/
theorem drainWalk_cases {room : Nat} {walk last : Walk} {graph final : Graph}
    (drained : drainWalk types heap room walk graph = .ok (final, last)) :
    (walk.pending.dropWhile (fun entry => graph.contains entry.2) = [] ∧ final = graph ∧
        last = walk) ∨
      ∃ slot id rest less node after,
        walk.pending.dropWhile (fun entry => graph.contains entry.2) = (slot, id) :: rest ∧
          room = less + 1 ∧
          captureNode types heap slot id { walk with pending := rest } = .ok (node, after) ∧
          drainWalk types heap less after (graph.insert node) = .ok (final, last) := by
  rw [drainWalk.eq_def] at drained
  simp only at drained
  split at drained
  next finished =>
    cases drained
    exact .inl ⟨finished, rfl, rfl⟩
  next slot id rest next =>
    cases room with
    | zero => cases drained
    | succ room =>
        obtain ⟨⟨node, after⟩, captured, drained⟩ := bind_eq_ok_iff.mp drained
        exact .inr ⟨slot, id, rest, room, node, after, next, rfl, captured, drained⟩

theorem drain_of_finished {room : Nat} {walk : Walk} {graph : Graph}
    (finished : walk.pending.dropWhile (fun entry => graph.contains entry.2) = []) :
    drain types heap room walk graph = .ok graph := by
  rw [drain.eq_def]
  simp only [finished]

theorem drain_of_next {room : Nat} {walk after : Walk} {graph : Graph} {slot : Slot}
    {id : GlobalId} {rest : List (Slot × GlobalId)} {node : Node}
    (next : walk.pending.dropWhile (fun entry => graph.contains entry.2) = (slot, id) :: rest)
    (captured : captureNode types heap slot id { walk with pending := rest } = .ok (node, after)) :
    drain types heap (room + 1) walk graph = drain types heap room after (graph.insert node) := by
  rw [drain.eq_def]
  simp only [next, captured, bind, Except.bind]

end Twins

/-- A node holds what the instance of its name holds. -/
def Walk.Shows (types : TypeTable) (heap : Heap) (walk : Walk) (id : GlobalId) (node : Node) :
    Prop :=
  ∃ slot object managed, walk.nameOf types heap slot = some id ∧ heap.get? slot = some object ∧
    Depicts types heap walk object managed node

/-- What draining adds to a graph, and the names it leaves behind. -/
structure Traced (types : TypeTable) (heap : Heap) (walk last : Walk) (graph final : Graph) :
    Prop where
  /-- Names stay. -/
  names : walk.names <:+ last.names
  /-- No object is named twice. -/
  proper : last.Proper
  /-- Nodes stay. -/
  persists : ∀ id node, graph.find? id = some node → final.find? id = some node
  /-- New nodes show the objects of their names. -/
  shown : ∀ id node, final.find? id = some node →
    graph.find? id = some node ∨ last.Shows types heap id node
  /-- What has waited becomes a node. -/
  captured : ∀ entry ∈ walk.pending, entry.2 ∈ final.ids
  /-- Named objects become nodes. -/
  named : ∀ entry ∈ last.names, entry ∈ walk.names ∨ entry.2 ∈ final.ids
  /-- References lead to new nodes from what has waited. -/
  reached : ∀ id ∈ final.ids, id ∈ graph.ids ∨ ∃ entry ∈ walk.pending, final.Reaches entry.2 id

section Traces

variable {types : TypeTable} {heap : Heap} {walk after last : Walk} {graph final : Graph}
  {object : Instance} {managed : ManagedType} {node : Node}

theorem Depicts.distinct (depicts : Depicts types heap walk object managed node) :
    node.state.names.Nodup := by
  rw [depicts.state]
  exact State.nodup_names_ofList _

/-- A node refers to the names of what its instance refers to. -/
theorem Depicts.refers (depicts : Depicts types heap walk object managed node)
    {entry : String × Live} (kept_entry : entry ∈ kept types object managed.properties)
    {target : Slot} (refers : target ∈ entry.2.references) {id : GlobalId}
    (named : walk.nameOf types heap target = some id) : id ∈ node.state.references := by
  have in_value : id ∈ (node.state.get entry.1).references := by
    rw [depicts.get_of_kept kept_entry, Value.references_relink]
    exact List.mem_filterMap.mpr ⟨target, refers, named⟩
  exact (State.mem_references_iff depicts.distinct).mpr
    ⟨entry.1, State.mem_names_of_mem_references in_value, in_value⟩

theorem Traced.finish (proper : walk.Proper)
    (finished : walk.pending.dropWhile (fun entry => graph.contains entry.2) = []) :
    Traced types heap walk walk graph graph where
  names := List.suffix_refl _
  proper := proper
  persists _ _ found := found
  shown _ _ found := .inl found
  captured entry waits := by
    have contained := List.dropWhile_eq_nil_iff.mp finished entry waits
    rwa [Graph.contains_eq, ← Graph.mem_ids_iff] at contained
  named _ member := .inl member
  reached _ member := .inl member

theorem Traced.mem_ids (traced : Traced types heap walk last graph final) {id : GlobalId}
    (member : id ∈ graph.ids) : id ∈ final.ids := by
  obtain ⟨node, found⟩ := Option.isSome_iff_exists.mp (Graph.mem_ids_iff.mp member)
  exact Graph.mem_ids_iff.mpr (Option.isSome_of_eq_some (traced.persists _ node found))

/-- Capturing the next object that waits adds its node in front of what draining adds then. -/
theorem Traced.step {slot : Slot} {id : GlobalId} {rest : List (Slot × GlobalId)}
    (proper : walk.Proper)
    (named : ∀ entry ∈ walk.pending, walk.nameOf types heap entry.1 = some entry.2)
    (next : walk.pending.dropWhile (fun entry => graph.contains entry.2) = (slot, id) :: rest)
    (node_captured : captureNode types heap slot id { walk with pending := rest } =
      .ok (node, after))
    (go_on : after.Proper →
      (∀ entry ∈ after.pending, after.nameOf types heap entry.1 = some entry.2) →
        Traced types heap after last (graph.insert node) final) :
    Traced types heap walk last graph final := by
  obtain ⟨waits, rest_waits, fresh, cases⟩ := Walk.waits_cases next
  have rest_proper : ({ walk with pending := rest } : Walk).Proper := ⟨proper.once, proper.owned⟩
  obtain ⟨object, managed, stands, rfl, depicts, settling⟩ :=
    captureNode_depicts rest_proper node_captured
  have slot_named : after.nameOf types heap slot = some node.id :=
    nameOf_of_suffix settling.names settling.proper (named _ waits)
  have traced := go_on settling.proper
    (settling.named_waiting fun entry member => named entry (rest_waits member))
  have found : final.find? node.id = some node :=
    traced.persists _ _ (by rw [Graph.find?_insert, if_pos rfl])
  refine ⟨settling.names.trans traced.names, traced.proper, fun other old old_found => ?_,
    fun other new new_found => ?_, fun entry member => ?_, fun entry member => ?_,
    fun other member => ?_⟩
  · have different : other ≠ node.id := by
      rintro rfl
      exact fresh (Graph.mem_ids_iff.mpr (Option.isSome_of_eq_some old_found))
    exact traced.persists _ _ (by rwa [Graph.find?_insert, if_neg different])
  · rcases traced.shown other new new_found with inserted | shows
    · rw [Graph.find?_insert] at inserted
      split at inserted
      next same =>
        obtain rfl := Option.some.inj inserted
        refine .inr ⟨slot, object, managed, ?_, stands, ?_⟩
        · rw [same]
          exact nameOf_of_suffix traced.names traced.proper slot_named
        · exact depicts.of_suffix traced.names traced.proper
      next => exact .inl inserted
    · exact .inr shows
  · rcases cases entry member with known | rfl | later
    · exact traced.mem_ids (mem_ids_insert_iff.mpr (.inr known))
    · exact traced.mem_ids (mem_ids_insert_iff.mpr (.inl rfl))
    · exact traced.captured entry (settling.stays later)
  · rcases traced.named entry member with earlier | becomes
    · exact (settling.newly entry earlier).imp_right (traced.captured entry)
    · exact .inr becomes
  · rcases traced.reached other member with inserted | ⟨entry, entry_waits, reached⟩
    · rcases mem_ids_insert_iff.mp inserted with rfl | known
      · exact .inr ⟨_, waits, .root⟩
      · exact .inl known
    · rcases settling.waiting entry entry_waits with older | ⟨refers, entry_named⟩
      · exact .inr ⟨entry, rest_waits older, reached⟩
      · -- What was found by capturing this node is referred to by it.
        obtain ⟨kept_entry, kept_mem, refers⟩ := List.mem_flatMap.mp refers
        exact .inr ⟨_, waits, .trans
          (.step .root found (depicts.refers kept_mem refers entry_named)) reached⟩

theorem drainWalk_traced {room : Nat} (proper : walk.Proper)
    (named : ∀ entry ∈ walk.pending, walk.nameOf types heap entry.1 = some entry.2)
    (drained : drainWalk types heap room walk graph = .ok (final, last)) :
    Traced types heap walk last graph final := by
  induction room generalizing walk graph with
  | zero =>
      obtain ⟨finished, rfl, rfl⟩ | ⟨_, _, _, _, _, _, -, less_eq, -⟩ := drainWalk_cases drained
      · exact .finish proper finished
      · cases less_eq
  | succ room induction =>
      obtain ⟨finished, rfl, rfl⟩ | ⟨slot, id, rest, _, node, after, next, ⟨⟩, captured,
        drained⟩ := drainWalk_cases drained
      · exact .finish proper finished
      · exact .step proper named next captured fun proper named => induction proper named drained

/-- No two value objects that a capture comes to get the same name. -/
def NamedApart (types : TypeTable) (heap : Heap) (roots : List Slot) : Prop :=
  ∀ graph last, captureWalk types heap roots = .ok (graph, last) →
    (last.names.map Prod.snd).Nodup

theorem namedApart_of_captureWalk {roots : List Slot}
    (captured : captureWalk types heap roots = .ok (graph, last))
    (distinct : (last.names.map Prod.snd).Nodup) : NamedApart types heap roots := by
  intro other_graph other_last other_captured
  cases captured.symm.trans other_captured
  exact distinct

/-- A capture of one entity starts with the entity waiting and nothing named. -/
theorem enter_entity {root : Slot} {id : GlobalId} (identified : rootId types heap root = .ok id)
    (entity : ¬ id.isValueObject) :
    enter types heap [root] .empty = .ok ([id], ⟨[(root, id)], []⟩) := by
  simp only [enter, identified, entity, Bool.false_and, bind, Except.bind]
  rfl

/-- What a capture of one entity adds to the graph of its root alone, and how it does. -/
theorem captureWalk_traced {root : Slot} {id : GlobalId}
    (found : referentAt types heap root = .ok (.entity id))
    (identified : rootId types heap root = .ok id)
    (captured : captureWalk types heap [root] = .ok (graph, last)) :
    drainWalk types heap heap.size ⟨[(root, id)], []⟩ (.withRoots [id]) = .ok (graph, last) ∧
      Traced types heap ⟨[(root, id)], []⟩ last (.withRoots [id]) graph := by
  have drained : drainWalk types heap heap.size ⟨[(root, id)], []⟩ (.withRoots [id]) =
      .ok (graph, last) := by
    rwa [captureWalk, enter_entity identified (not_isValueObject_of_entity found)] at captured
  refine ⟨drained, drainWalk_traced ⟨List.nodup_nil, fun _ member => (nomatch member)⟩ ?_ drained⟩
  intro entry member
  rw [List.mem_singleton.mp member]
  exact nameOf_eq_some_iff.mpr (.inl found)

end Traces

end Capture
end AuditTrail
