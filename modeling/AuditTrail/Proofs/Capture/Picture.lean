import AuditTrail.Proofs.Capture.Content
import AuditTrail.Proofs.Capture.Places

/-!
# Captured graphs as pictures of heaps

A captured graph holds what its root ids lead to and nothing else.  It is named consistently: there
is one naming of slots by ids under which every node holds what an instance of its name holds, with
each reference replaced by the name of its target.
-/

namespace AuditTrail

open Schema

theorem GlobalId.child_eq_owned_iff {id owner : GlobalId} {place fragment : String} :
    id.child place = .owned owner fragment ↔ (id.path = [] ∧ id = owner ∧ place = fragment) ∨
      ∃ own, id = .owned owner own ∧ own ++ "/" ++ place = fragment := by
  cases id <;> simp [child, path]

namespace Capture

/-- A slot with an instance of a class that is not ignored, which the roots lead to. -/
structure Reachable (types : TypeTable) (heap : Heap) (roots : List Slot) (slot : Slot) : Prop where
  /-- Some root leads there. -/
  reached : ∃ root ∈ roots, Reached types heap root slot
  /-- The class of the instance is not ignored. -/
  heeded : referentAt types heap slot ≠ .ok .skipped

/-- A node holds the kept properties of a reachable instance of its name, with each reference
replaced by the name of its target. -/
structure Exhibits (types : TypeTable) (heap : Heap) (roots : List Slot)
    (naming : Slot → Option GlobalId) (node : Node) (slot : Slot) (object : Instance)
    (managed : ManagedType) : Prop where
  /-- The roots lead to the instance. -/
  reachable : Reachable types heap roots slot
  /-- The node goes by the name of the instance. -/
  named : naming slot = some node.id
  /-- The instance stands at the slot. -/
  stands : heap.get? slot = some object
  /-- The instance is of the type. -/
  typed : types.managedOf? object.className = some managed
  /-- The node shows the type. -/
  typeName : node.typeName = managed.typeName
  /-- The properties are those of the instance. -/
  state : node.state = .ofList ((kept types object managed.properties).map fun entry =>
    (entry.1, entry.2.relink naming))
  /-- Only references to instances of ignored classes have no name and so become null. -/
  settled : ∀ entry ∈ kept types object managed.properties, ∀ target ∈ entry.2.references,
    naming target = none → referentAt types heap target = .ok .skipped

/-- Under a naming of slots, a graph shows what stands in the heap. -/
structure Pictures (types : TypeTable) (heap : Heap) (roots : List Slot) (graph : Graph)
    (naming : Slot → Option GlobalId) : Prop where
  /-- The root ids are the names of the roots. -/
  rootIds : graph.roots.map some = roots.map naming
  /-- Entities are named by their identities. -/
  entities : ∀ slot id, referentAt types heap slot = .ok (.entity id) → naming slot = some id
  /-- Value objects have the names of value objects. -/
  valueObjects : ∀ slot object managed id,
    referentAt types heap slot = .ok (.valueObject object managed) → naming slot = some id →
      id.isValueObject
  /-- Instances of ignored classes have no name. -/
  skipped : ∀ slot, referentAt types heap slot = .ok .skipped → naming slot = none
  /-- Every node exhibits an instance of its name. -/
  exhibits : ∀ node ∈ graph.nodes.rows, ∃ slot object managed,
    Exhibits types heap roots naming node slot object managed

/-- A graph is exactly what its roots lead to, and consistently named. -/
structure Consistent (types : TypeTable) (heap : Heap) (roots : List Slot) (graph : Graph) :
    Prop where
  /-- Root ids are nodes. -/
  rooted : graph.roots ⊆ graph.ids
  /-- References lead to nodes. -/
  closed : graph.Closed
  /-- References lead from root ids to every node. -/
  reached : ∀ id ∈ graph.ids, ∃ root ∈ graph.roots, graph.Reaches root id
  /-- Every node is stored under its own id. -/
  keyed : ∀ id node, graph.find? id = some node → node.id = id
  /-- The id of an entity names the type of the node, which is an entity type. -/
  entities : ∀ typeName localId node, graph.find? (.entity typeName localId) = some node →
    node.typeName = typeName ∧
      ∃ managed, types.managedByName? typeName = some managed ∧ managed.isEntity
  /-- What owns a node is a node, and is not owned itself. -/
  owners : ∀ owner fragment, .owned owner fragment ∈ graph.ids →
    (∀ other path, owner ≠ .owned other path) ∧ owner ∈ graph.ids
  /-- One naming goes for all nodes. -/
  pictured : ∃ naming, Pictures types heap roots graph naming

section Entering

variable {types : TypeTable} {heap : Heap} {definitions : List Definition}
  {walk before after : Walk} {slot : Slot} {id : GlobalId} {roots : List Slot}
  {ids : List GlobalId}

/-- What naming the roots does to a walk. -/
structure Entering (types : TypeTable) (heap : Heap) (before after : Walk) (roots : List Slot)
    (ids : List GlobalId) : Prop where
  /-- The roots get names. -/
  settling : Settling types heap before after roots
  /-- New names are those of roots. -/
  newly : ∀ entry ∈ after.names, entry ∈ before.names ∨
    entry.1 ∈ roots ∧ rootId types heap entry.1 = .ok entry.2
  /-- The ids are the names of the roots. -/
  named : ids.map some = roots.map (after.nameOf types heap)
  /-- The roots wait. -/
  waiting : ids ⊆ after.pending.map Prod.snd

/-- A root is named by letting it wait under its id. -/
theorem Entering.come {next : Walk} (identified : rootId types heap slot = .ok id)
    (names : walk.names <:+ next.names) (proper : (next.push slot id).Proper)
    (waits : next.pending = walk.pending)
    (newly : ∀ entry ∈ next.names, entry ∈ walk.names ∨ entry = (slot, id))
    (named : (next.push slot id).nameOf types heap slot = some id) :
    Entering types heap walk (next.push slot id) [slot] [id] where
  settling := .come names proper (by rw [Walk.push, waits]) newly named
  newly entry member := (newly entry member).imp_right fun same => by
    rw [same]
    exact ⟨List.mem_singleton_self _, identified⟩
  named := by rw [List.map_singleton, List.map_singleton, named]
  waiting := List.cons_subset.mpr ⟨List.mem_cons_self, List.nil_subset _⟩

/-- A root is named unless it has been, and waits. -/
theorem Entering.root (accepted : TypeTable.ofDefinitions definitions = .ok types)
    (proper : walk.Proper)
    (rooted : ∀ entry ∈ walk.names, rootId types heap entry.1 = .ok entry.2)
    (identified : rootId types heap slot = .ok id) :
    Entering types heap walk ((if id.isValueObject && (walk.name? slot).isNone then
      walk.giveName slot id else walk).push slot id) [slot] [id] := by
  rcases (rootId_eq_ok_iff_referentAt accepted).mp identified with
    found | ⟨object, managed, found, rfl⟩
  · rw [if_neg (by simp [not_isValueObject_of_entity found])]
    exact .come identified (List.suffix_refl _) ⟨proper.once, proper.owned⟩ rfl
      (fun _ member => .inl member) (nameOf_eq_some_iff.mpr (.inl found))
  · cases known : walk.name? slot with
    | none =>
        rw [if_pos (by simp [GlobalId.isValueObject])]
        have plain : (GlobalId.unbounded managed.typeName).isValueObject := rfl
        have next_proper := proper.giveName known plain
        exact .come identified (List.suffix_cons _ _) next_proper rfl
          (fun entry member => (List.mem_cons.mp member).symm)
          (nameOf_eq_some_iff.mpr (.inr ⟨object, managed, found,
            next_proper.name?_eq_some_iff.mpr List.mem_cons_self⟩))
    | some other =>
        -- What has been named so far are roots, so the name is the one it would get now.
        have same := rooted _ (proper.name?_eq_some_iff.mp known)
        obtain rfl := Except.ok.inj (identified.symm.trans same)
        rw [if_neg (by simp)]
        exact .come identified (List.suffix_refl _) ⟨proper.once, proper.owned⟩ rfl
          (fun _ member => .inl member)
          (nameOf_eq_some_iff.mpr (.inr ⟨object, managed, found, known⟩))

theorem enter_entering (accepted : TypeTable.ofDefinitions definitions = .ok types)
    (proper : walk.Proper)
    (rooted : ∀ entry ∈ walk.names, rootId types heap entry.1 = .ok entry.2)
    (entered : enter types heap roots walk = .ok (ids, after)) :
    Entering types heap walk after roots ids := by
  induction roots generalizing walk ids with
  | nil =>
      cases entered
      exact ⟨.refl proper, fun _ member => .inl member, rfl, List.nil_subset _⟩
  | cons slot rest induction =>
      obtain ⟨id, identified, entered⟩ := bind_eq_ok_iff.mp entered
      obtain ⟨⟨others, reached⟩, rest_entered, entered⟩ := bind_eq_ok_iff.mp entered
      cases entered
      have first := Entering.root accepted proper rooted identified
      have later := induction first.settling.proper (fun entry member =>
        (first.newly entry member).elim (rooted entry) And.right) rest_entered
      have named := first.named
      rw [List.map_singleton, List.map_singleton, List.singleton_inj] at named
      refine ⟨first.settling.trans later.settling, fun entry member => ?_, ?_, ?_⟩
      · rcases later.newly entry member with older | ⟨root, identified⟩
        · refine (first.newly entry older).imp_right fun ⟨root, identified⟩ => ?_
          exact ⟨List.mem_cons.mpr (.inl (List.mem_singleton.mp root)), identified⟩
        · exact .inr ⟨List.mem_cons_of_mem _ root, identified⟩
      · rw [List.map_cons, List.map_cons, later.named, nameOf_of_suffix later.settling.names
          later.settling.proper named.symm]
      · refine List.cons_subset.mpr ⟨?_, later.waiting⟩
        exact List.map_subset _ later.settling.stays (first.waiting (List.mem_singleton_self _))

end Entering

section Sources

variable {types : TypeTable} {heap : Heap} {roots : List Slot} {walk after last : Walk}
  {graph final : Graph} {node : Node} {slot : Slot} {object : Instance} {managed : ManagedType}

/-- A node depicts a reachable instance of its name. -/
structure Portrays (types : TypeTable) (heap : Heap) (roots : List Slot) (walk : Walk)
    (node : Node) (slot : Slot) (object : Instance) (managed : ManagedType) : Prop where
  /-- The roots lead to the instance. -/
  reachable : Reachable types heap roots slot
  /-- The node goes by the name of the instance. -/
  named : walk.nameOf types heap slot = some node.id
  /-- The instance stands at the slot. -/
  stands : heap.get? slot = some object
  /-- The node holds what the instance holds. -/
  depicts : Depicts types heap walk object managed node

theorem nameOf_of_skipped (found : referentAt types heap slot = .ok .skipped) :
    walk.nameOf types heap slot = none := by
  rw [Walk.nameOf, found]

theorem Portrays.exhibits (portrays : Portrays types heap roots walk node slot object managed) :
    Exhibits types heap roots (walk.nameOf types heap) node slot object managed where
  reachable := portrays.reachable
  named := portrays.named
  stands := portrays.stands
  typed := portrays.depicts.typed
  typeName := portrays.depicts.typeName
  state := portrays.depicts.state
  settled entry member target refers unnamed := by
    rcases portrays.depicts.settled entry member target refers with skipped | ⟨id, named⟩
    · exact skipped
    · rw [unnamed] at named
      cases named

/-- What a reachable instance refers to is reachable if it has a name. -/
theorem Reachable.step (reachable : Reachable types heap roots slot)
    (stands : heap.get? slot = some object)
    (typed : types.managedOf? object.className = some managed) {entry : String × Live}
    (kept_entry : entry ∈ kept types object managed.properties) {target : Slot}
    (refers : target ∈ entry.2.references)
    (heeded : referentAt types heap target ≠ .ok .skipped) :
    Reachable types heap roots target := by
  obtain ⟨root, member, reached⟩ := reachable.reached
  exact ⟨⟨root, member, .step reached stands typed kept_entry refers⟩, heeded⟩

theorem heeded_of_nameOf {id : GlobalId} (named : walk.nameOf types heap slot = some id) :
    referentAt types heap slot ≠ .ok .skipped := by
  intro skipped
  rw [nameOf_of_skipped skipped] at named
  cases named

/-- The name of a value object is that of a place below a node that portrays what lies there. -/
def Sourced (types : TypeTable) (heap : Heap) (roots : List Slot) (walk : Walk) (graph : Graph)
    (entry : Slot × GlobalId) : Prop :=
  ∃ node ∈ graph.nodes.rows, ∃ slot object managed place,
    Portrays types heap roots walk node slot object managed ∧ entry.2 = node.id.child place ∧
      ((∀ property ∈ managed.properties, property.type.isSetFree) →
        (place, entry.1) ∈ placesOf types heap walk object managed.properties)

/-- Whatever waits is reachable and waits under its name. -/
def Waiting (types : TypeTable) (heap : Heap) (roots : List Slot) (walk : Walk) : Prop :=
  ∀ entry ∈ walk.pending, Reachable types heap roots entry.1 ∧
    walk.nameOf types heap entry.1 = some entry.2

/-- What a capture of a node does to a walk, once all names are given. -/
theorem captureNode_portrays {id : GlobalId} (proper : walk.Proper)
    (waiting : Waiting types heap roots walk) (reachable : Reachable types heap roots slot)
    (named : walk.nameOf types heap slot = some id)
    (captured : captureNode types heap slot id walk = .ok (node, after)) :
    node.id = id ∧ after.Proper ∧ Waiting types heap roots after ∧ ∀ last : Walk, last.Proper →
      after.names <:+ last.names → ∃ object managed,
        Portrays types heap roots last node slot object managed ∧
          NamesBelow id walk after (∀ property ∈ managed.properties, property.type.isSetFree)
            (placesOf types heap last object managed.properties) := by
  obtain ⟨object, managed, stands, same, depicts, settling⟩ := captureNode_depicts proper captured
  have now_named := nameOf_of_suffix settling.names settling.proper named
  refine ⟨same, settling.proper, fun entry member => ?_, fun last last_proper earlier => ?_⟩
  · rcases settling.waiting entry member with older | ⟨refers, newly⟩
    · obtain ⟨reached, older_named⟩ := waiting entry older
      exact ⟨reached, nameOf_of_suffix settling.names settling.proper older_named⟩
    · obtain ⟨kept_entry, kept_mem, refers⟩ := List.mem_flatMap.mp refers
      exact ⟨reachable.step stands depicts.typed kept_mem refers (heeded_of_nameOf newly), newly⟩
  · refine ⟨object, managed, ⟨reachable, ?_, stands, depicts.of_suffix earlier last_proper⟩, ?_⟩
    · rw [same]
      exact nameOf_of_suffix earlier last_proper now_named
    obtain ⟨_, other_stands, captured⟩ := bind_eq_ok_iff.mp captured
    obtain rfl := Option.some.inj (stands.symm.trans (instanceAt_eq_ok_iff.mp other_stands))
    obtain ⟨_, other_typed, captured⟩ := bind_eq_ok_iff.mp captured
    obtain rfl :=
      Option.some.inj (depicts.typed.symm.trans (managedType_eq_ok_iff.mp other_typed))
    obtain ⟨⟨state, reached⟩, state_captured, captured⟩ := bind_eq_ok_iff.mp captured
    cases captured
    exact captureProperties_names proper state_captured earlier last_proper

/-- Draining adds nodes that portray instances, and names that have a source. -/
theorem drainWalk_sourced {room : Nat} (proper : walk.Proper)
    (waiting : Waiting types heap roots walk)
    (drained : drainWalk types heap room walk graph = .ok (final, last)) :
    (∀ node ∈ final.nodes.rows, node ∈ graph.nodes.rows ∨ ∃ slot object managed,
      Portrays types heap roots last node slot object managed) ∧
    ∀ entry ∈ last.names, entry ∈ walk.names ∨ Sourced types heap roots last final entry := by
  induction room generalizing walk graph with
  | zero =>
      obtain ⟨-, rfl, rfl⟩ | ⟨_, _, _, _, _, _, -, less_eq, -⟩ := drainWalk_cases drained
      · exact ⟨fun _ member => .inl member, fun _ member => .inl member⟩
      · cases less_eq
  | succ room induction =>
      obtain ⟨-, rfl, rfl⟩ | ⟨slot, id, rest, _, node, after, next, ⟨⟩, captured, drained⟩ :=
        drainWalk_cases drained
      · exact ⟨fun _ member => .inl member, fun _ member => .inl member⟩
      obtain ⟨waits, rest_waits, fresh, -⟩ := Walk.waits_cases next
      have rest_proper : ({ walk with pending := rest } : Walk).Proper :=
        ⟨proper.once, proper.owned⟩
      have rest_waiting : Waiting types heap roots { walk with pending := rest } :=
        fun entry member => waiting entry (rest_waits member)
      obtain ⟨reachable, named⟩ := waiting _ waits
      obtain ⟨rfl, after_proper, after_waiting, portrayed⟩ :=
        captureNode_portrays rest_proper rest_waiting reachable named captured
      obtain ⟨nodes, names⟩ := induction after_proper after_waiting drained
      have traced := drainWalk_traced after_proper
        (fun entry member => (after_waiting entry member).2) drained
      obtain ⟨object, managed, portrays, given⟩ := portrayed last traced.proper traced.names
      have stored : node ∈ final.nodes.rows := Graph.mem_rows_of_find?
        (traced.persists _ _ (by rw [Graph.find?_insert, if_pos rfl]))
      refine ⟨fun other member => ?_, fun entry member => ?_⟩
      · rcases nodes other member with inserted | portrayed
        · rcases Table.mem_put_iff.mp inserted with rfl | ⟨older, -⟩
          · exact .inr ⟨slot, object, managed, portrays⟩
          · exact .inl older
        · exact .inr portrayed
      · rcases names entry member with earlier | sourced
        · refine (given entry earlier).imp_right fun ⟨place, below, lies⟩ => ?_
          exact ⟨node, stored, slot, object, managed, place, portrays, below, lies⟩
        · exact .inr sourced

end Sources

section Outcomes

variable {types : TypeTable} {heap : Heap} {roots : List Slot} {walk last : Walk}
  {graph final : Graph} {definitions : List Definition}

theorem drainWalk_roots {room : Nat}
    (drained : drainWalk types heap room walk graph = .ok (final, last)) :
    final.roots = graph.roots := by
  induction room generalizing walk graph with
  | zero =>
      obtain ⟨-, rfl, -⟩ | ⟨_, _, _, _, _, _, -, less_eq, -⟩ := drainWalk_cases drained
      · rfl
      · cases less_eq
  | succ room induction =>
      obtain ⟨-, rfl, -⟩ | ⟨_, _, _, _, _, _, -, ⟨⟩, -, drained⟩ := drainWalk_cases drained
      · rfl
      · exact (induction drained).trans rfl

theorem enter_entering_empty (accepted : TypeTable.ofDefinitions definitions = .ok types)
    {ids : List GlobalId} (entered : enter types heap roots .empty = .ok (ids, walk)) :
    Entering types heap .empty walk roots ids := by
  have start : Walk.empty.Proper := ⟨List.nodup_nil, fun _ member => (nomatch member)⟩
  exact enter_entering accepted start (fun _ member => (nomatch member)) entered

/-- Once they are entered, the roots wait under their names. -/
theorem Entering.roots_waiting {ids : List GlobalId}
    (entering : Entering types heap .empty walk roots ids) : Waiting types heap roots walk := by
  have named := entering.settling.named_waiting fun _ member => (nomatch member)
  intro entry member
  refine ⟨⟨⟨entry.1, ?_, .root⟩, heeded_of_nameOf (named entry member)⟩, named entry member⟩
  exact ((entering.settling.waiting entry member).resolve_left List.not_mem_nil).1

/-- What a capture comes to, with the walk that is left at its end. -/
structure Outcome (types : TypeTable) (heap : Heap) (roots : List Slot) (graph : Graph)
    (last : Walk) : Prop where
  /-- No object is named twice. -/
  proper : last.Proper
  /-- The root ids are the names of the roots. -/
  rootIds : graph.roots.map some = roots.map (last.nameOf types heap)
  /-- Root ids are nodes. -/
  rooted : graph.roots ⊆ graph.ids
  /-- References lead to nodes. -/
  closed : graph.Closed
  /-- References lead from root ids to every node. -/
  reached : ∀ id ∈ graph.ids, ∃ root ∈ graph.roots, graph.Reaches root id
  /-- Every node portrays an instance. -/
  portrays : ∀ node ∈ graph.nodes.rows, ∃ slot object managed,
    Portrays types heap roots last node slot object managed
  /-- Value objects are named as roots or by a place below a node. -/
  sources : ∀ entry ∈ last.names, (entry.1 ∈ roots ∧ rootId types heap entry.1 = .ok entry.2) ∨
    Sourced types heap roots last graph entry

theorem outcome_of_captureWalk (accepted : TypeTable.ofDefinitions definitions = .ok types)
    (captured : captureWalk types heap roots = .ok (graph, last)) :
    Outcome types heap roots graph last := by
  have closed := (capture_spec (capture_eq_ok_iff.mpr ⟨last, captured⟩)).1
  obtain ⟨⟨ids, walk⟩, entered, drained⟩ := bind_eq_ok_iff.mp captured
  have entering := enter_entering_empty accepted entered
  have waiting := entering.roots_waiting
  have named := fun entry member => (waiting entry member).2
  have traced := drainWalk_traced entering.settling.proper named drained
  obtain ⟨nodes, names⟩ := drainWalk_sourced entering.settling.proper waiting drained
  have roots_eq : graph.roots = ids := drainWalk_roots drained
  have root_waits : ∀ id ∈ graph.roots, ∃ entry ∈ walk.pending, entry.2 = id := by
    intro id member
    rw [roots_eq] at member
    exact List.mem_map.mp (entering.waiting member)
  have waits_root : ∀ entry ∈ walk.pending, entry.2 ∈ graph.roots := by
    intro entry member
    obtain ⟨refers, entry_named⟩ :=
      (entering.settling.waiting entry member).resolve_left List.not_mem_nil
    have among : some entry.2 ∈ ids.map some := by
      rw [entering.named, ← entry_named]
      exact List.mem_map_of_mem refers
    rw [roots_eq]
    exact (List.mem_map_of_injective (Option.some_injective _)).mp among
  refine ⟨traced.proper, ?_, fun id member => ?_, closed, fun id member => ?_,
    fun node member => ?_, fun entry member => ?_⟩
  · rw [roots_eq, entering.named]
    refine List.map_congr_left fun slot member => ?_
    exact ((entering.settling.settled slot member).of_suffix traced.names traced.proper).2.symm
  · obtain ⟨entry, waits, rfl⟩ := root_waits id member
    exact traced.captured entry waits
  · obtain ⟨entry, waits, reached⟩ := (traced.reached id member).resolve_left List.not_mem_nil
    exact ⟨entry.2, waits_root entry waits, reached⟩
  · exact (nodes node member).resolve_left List.not_mem_nil
  · refine (names entry member).imp_left fun given => ?_
    exact (entering.newly entry given).resolve_left List.not_mem_nil

variable {slot : Slot} {id owner : GlobalId} {fragment : String}

/-- A value object that has a name was given it. -/
theorem mem_names_of_nameOf (proper : last.Proper)
    (named : last.nameOf types heap slot = some id) (plain : id.isValueObject) :
    (slot, id) ∈ last.names := by
  rcases nameOf_eq_some_iff.mp named with found | ⟨_, _, -, given⟩
  · exact absurd plain (not_isValueObject_of_entity found)
  · exact proper.name?_eq_some_iff.mp given

/-- What owns a named object is a node that is not owned itself. -/
theorem Outcome.owner_mem (outcome : Outcome types heap roots graph last)
    (member : (slot, .owned owner fragment) ∈ last.names) :
    owner.path = [] ∧ owner ∈ graph.ids := by
  induction room : fragment.length using Nat.strong_induction_on generalizing slot fragment with
  | h room induction =>
      rcases outcome.sources _ member with ⟨-, identified⟩ |
        ⟨node, stored, source, object, managed, place, portrays, below, -⟩
      · obtain ⟨object, -, identified⟩ := bind_eq_ok_iff.mp identified
        obtain ⟨managed, -, identified⟩ := bind_eq_ok_iff.mp identified
        split at identified
        · obtain ⟨_, _, _, -, -, -, impossible⟩ := entityId_eq_ok_iff.mp identified
          cases impossible
        · cases identified
      · rcases GlobalId.child_eq_owned_iff.mp below.symm with ⟨root, rfl, -⟩ | ⟨own, same, rfl⟩
        · exact ⟨root, List.mem_map_of_mem stored⟩
        · have source_named := portrays.named
          rw [same] at source_named
          refine induction own.length ?_ (mem_names_of_nameOf outcome.proper source_named rfl) rfl
          rw [← room, String.length_append, String.length_append]
          exact Nat.lt_of_lt_of_le (Nat.lt_succ_self _) (Nat.le_add_right _ _)

theorem Outcome.pictures (outcome : Outcome types heap roots graph last) :
    Pictures types heap roots graph (last.nameOf types heap) where
  rootIds := outcome.rootIds
  entities slot id found := nameOf_eq_some_iff.mpr (.inl found)
  valueObjects slot object managed id found named := by
    rcases nameOf_eq_some_iff.mp named with other | ⟨_, _, -, given⟩
    · cases found.symm.trans other
    · exact outcome.proper.owned _ (outcome.proper.name?_eq_some_iff.mp given)
  skipped slot found := nameOf_of_skipped found
  exhibits node member := by
    obtain ⟨slot, object, managed, portrays⟩ := outcome.portrays node member
    exact ⟨slot, object, managed, portrays.exhibits⟩

/-- A node with the id of an entity portrays an instance of the entity type of that name. -/
theorem Outcome.entity (accepted : TypeTable.ofDefinitions definitions = .ok types)
    (outcome : Outcome types heap roots graph last) {typeName : String} {localId : LocalId}
    {node : Node} (found : graph.find? (.entity typeName localId) = some node) :
    node.typeName = typeName ∧
      ∃ managed, types.managedByName? typeName = some managed ∧ managed.isEntity := by
  obtain ⟨slot, object, managed, portrays⟩ :=
    outcome.portrays node (Graph.mem_rows_of_find? found)
  have named := portrays.named
  rw [Graph.id_of_find? found] at named
  rcases nameOf_eq_some_iff.mp named with entity | ⟨_, _, -, given⟩
  · obtain ⟨_, _, stands, -, typed, is_entity, identified⟩ := referentAt_eq_entity_iff.mp entity
    obtain rfl := Option.some.inj (portrays.stands.symm.trans stands)
    obtain rfl := Option.some.inj (portrays.depicts.typed.symm.trans typed)
    obtain ⟨_, _, _, -, -, -, same⟩ := entityId_eq_ok_iff.mp identified
    obtain ⟨rfl, -⟩ := GlobalId.entity.inj same
    exact ⟨portrays.depicts.typeName, managed,
      (TypeTable.namesDistinct_ofDefinitions accepted).managedByName?
        (List.mem_of_find?_eq_some typed), is_entity⟩
  · cases outcome.proper.owned _ (outcome.proper.name?_eq_some_iff.mp given)

/-- A captured graph is exactly what its roots lead to, and consistently named. -/
theorem consistent_capture (accepted : TypeTable.ofDefinitions definitions = .ok types)
    (captured : capture types heap roots = .ok graph) : Consistent types heap roots graph := by
  obtain ⟨last, captured⟩ := capture_eq_ok_iff.mp captured
  have outcome := outcome_of_captureWalk accepted captured
  refine {
    rooted := outcome.rooted
    closed := outcome.closed
    reached := outcome.reached
    keyed := fun id node found => Graph.id_of_find? found
    entities := fun typeName localId node found => outcome.entity accepted found
    owners := fun owner fragment member => ?_
    pictured := ⟨last.nameOf types heap, outcome.pictures⟩ }
  obtain ⟨node, stored, same⟩ := List.mem_map.mp member
  obtain ⟨slot, object, managed, portrays⟩ := outcome.portrays node stored
  have named := portrays.named
  rw [same] at named
  obtain ⟨free, owner_stored⟩ := outcome.owner_mem (mem_names_of_nameOf outcome.proper named rfl)
  refine ⟨fun other path owned => ?_, owner_stored⟩
  rw [owned, GlobalId.path] at free
  exact List.append_ne_nil_of_right_ne_nil _ (List.cons_ne_nil _ _) free

/-- Two users share an address that leads to another one and back.  The other one is a root as well,
so it has no owner, and the shared one is named below it.  A token of the first user is of an
ignored class. -/
theorem consistent_capture_shared :
    let user : Definition :=
      .entity ⟨"User", none, [⟨"id", .named "int", true, false⟩,
        ⟨"home", .named "Address", false, false⟩, ⟨"friend", .named "User", false, false⟩,
        ⟨"tokens", .list (.named "any"), false, false⟩], []⟩ none
    let address : Definition :=
      .valueObject ⟨"Address", none, [⟨"near", .list (.named "Address"), false, false⟩], []⟩
    let heap : Heap :=
      ⟨[.ofList "User" [("id", .scalar (.int 1)), ("home", .ref 1), ("friend", .ref 2),
          ("tokens", .seq [.ref 4])],
        .ofList "Address" [("near", .seq [.ref 3, .ref 1])],
        .ofList "User" [("id", .scalar (.int 2)), ("home", .ref 1)],
        .ofList "Address" [("near", .seq [.ref 1])], .ofClass "Token"]⟩
    ∃ types graph, TypeTable.ofDefinitions [user, address, .ignored "Token"] = .ok types ∧
      capture types heap [0, 3] = .ok graph ∧
      graph.ids = [.unbounded "Address", .owned (.unbounded "Address") "near/0",
        .entity "User" (.int 1), .entity "User" (.int 2)] ∧
      Consistent types heap [0, 3] graph := by
  intro user address heap
  have accepted : TypeTable.ofDefinitions [user, address, .ignored "Token"] = .ok _ := rfl
  exact ⟨_, _, accepted, rfl, by decide +kernel, consistent_capture accepted rfl⟩

end Outcomes

end Capture
end AuditTrail
