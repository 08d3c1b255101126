import AuditTrail.Proofs.Diff.References
import AuditTrail.Proofs.Diff.SelfComparison
import AuditTrail.Proofs.Shadow.Filling

/-!
# Reading shadows back

The instances of a shadow are read back as nodes when slots are replaced by the ids they stand for.
If the live snapshots match the nodes of a graph, the shadow of a node stands for the part of the
graph that references lead to from it: one instance for each node, and none that differs from it.
-/

namespace AuditTrail

open Schema Comparison

section Settings

variable {α β : Type} {name : String} {value : α} {settings : List (String × α)}

/-- Settings with one more: a name that is there keeps its place, and a new one goes to the end. -/
def overwrite (name : String) (value : α) : List (String × α) → List (String × α)
  | [] => [(name, value)]
  | entry :: rest =>
    if entry.1 == name then (name, value) :: rest else entry :: overwrite name value rest

/-- What settings come to: each name once, at its first place and with its last value. -/
def settled (settings : List (String × α)) : List (String × α) :=
  settings.foldl (fun kept setting => overwrite setting.1 setting.2 kept) []

theorem overwrite_of_absent (absent : name ∉ settings.map Prod.fst) :
    overwrite name value settings = settings ++ [(name, value)] := by
  induction settings with
  | nil => rfl
  | cons head rest induction =>
      rw [List.map_cons, List.mem_cons, not_or] at absent
      have other : ¬ (head.1 == name) = true := by
        rw [beq_iff_eq]
        exact Ne.symm absent.1
      rw [overwrite, if_neg other, induction absent.2, List.cons_append]

theorem overwrite_map (f : α → β) (name : String) (value : α) (settings : List (String × α)) :
    overwrite name (f value) (settings.map fun setting => (setting.1, f setting.2)) =
      (overwrite name value settings).map fun setting => (setting.1, f setting.2) := by
  induction settings with
  | nil => rfl
  | cons head rest induction =>
      rw [List.map_cons, overwrite, overwrite, induction]
      split <;> rfl

theorem settled_concat (settings : List (String × α)) (setting : String × α) :
    settled (settings ++ [setting]) = overwrite setting.1 setting.2 (settled settings) := by
  rw [settled, List.foldl_concat, settled]

/-- Nothing is overwritten if no name is set twice. -/
theorem settled_of_nodup (distinct : (settings.map Prod.fst).Nodup) :
    settled settings = settings := by
  induction settings using List.reverseRecOn with
  | nil => rfl
  | append_singleton settings setting induction =>
      rw [List.map_append, List.nodup_append'] at distinct
      obtain ⟨settings_distinct, -, disjoint⟩ := distinct
      have absent : setting.1 ∉ settings.map Prod.fst :=
        fun member => disjoint member List.mem_cons_self
      rw [settled_concat, induction settings_distinct, overwrite_of_absent absent]

/-- Changing values does not change which ones are left. -/
theorem settled_map (f : α → β) (settings : List (String × α)) :
    settled (settings.map fun setting => (setting.1, f setting.2)) =
      (settled settings).map fun setting => (setting.1, f setting.2) := by
  induction settings using List.reverseRecOn with
  | nil => rfl
  | append_singleton settings setting induction =>
      rw [List.map_append, List.map_singleton, settled_concat, settled_concat, induction]
      exact overwrite_map f setting.1 setting.2 (settled settings)

end Settings

theorem Instance.setIn_eq (name : String) (value : Live) (properties : List (String × Live)) :
    setIn name value properties = overwrite name value properties := by
  induction properties with
  | nil => rfl
  | cons head rest induction => rw [setIn, overwrite, induction]

/-- An instance has what the settings of its properties come to. -/
theorem Instance.properties_eq (className : String) (settings : List (String × Live)) :
    (ofList className settings).properties = settled settings :=
  (List.foldl_hom properties fun object setting =>
    (setIn_eq setting.1 setting.2 object.properties).symm).symm

/-- An instance has the properties that are set on it, if no name is set twice. -/
theorem Instance.properties_ofList {className : String} {settings : List (String × Live)}
    (distinct : (settings.map Prod.fst).Nodup) :
    (ofList className settings).properties = settings := by
  rw [properties_eq, settled_of_nodup distinct]

theorem Instance.className_ofList (className : String) (settings : List (String × Live)) :
    (ofList className settings).className = className := by
  induction settings using List.reverseRecOn with
  | nil => rfl
  | append_singleton settings setting induction =>
      rw [ofList, List.foldl_concat]
      exact induction

namespace Shadow

/-- The node that an instance stands for, if slots stand for the named ids. -/
def readBack (types : TypeTable) (names : List GlobalId) (id : GlobalId) (object : Instance) :
    Option Node :=
  (types.managedOf? object.className).map fun managed =>
    ⟨id, managed.typeName,
      .ofList (object.properties.map fun property =>
        (property.1, property.2.relink fun slot => names[slot]?))⟩

/-- A shadow stands for the part of a graph that references lead to from a root. -/
structure Reproduces (types : TypeTable) (alignment : Alignment) (graph : Graph) (root : GlobalId)
    (names : List GlobalId) (shadow : Shadow) : Prop where
  /-- There are as many instances as names. -/
  size : shadow.heap.size = names.length
  /-- No node has two instances. -/
  distinct : names.Nodup
  /-- The root is where the shadow says. -/
  rooted : names[shadow.root]? = some root
  /-- The nodes that are led to have an instance, and no others. -/
  mem_iff : ∀ id, id ∈ names ↔ graph.Reaches root id
  /-- Each instance is read back as a node of the same type that does not differ. -/
  faithful : ∀ slot id, names[slot]? = some id → ∃ object node read,
    shadow.heap.get? slot = some object ∧ graph.find? id = some node ∧
      readBack types names id object = some read ∧ read.typeName = node.typeName ∧
        compareNodes types alignment (some read) (some node) = []

/-- A shadow has no more instances than a graph has nodes, and each is of the type of a node. -/
def Resembles (types : TypeTable) (graph : Graph) (shadow : Shadow) : Prop :=
  shadow.heap.size ≤ graph.ids.length ∧
    ∀ object ∈ shadow.heap.instances, ∃ node ∈ graph.nodes.rows,
      (types.managedOf? object.className).map ManagedType.typeName = some node.typeName

instance decidableResembles (types : TypeTable) (graph : Graph) (shadow : Shadow) :
    Decidable (Resembles types graph shadow) :=
  inferInstanceAs (Decidable (shadow.heap.size ≤ graph.ids.length ∧
    ∀ object ∈ shadow.heap.instances, ∃ node ∈ graph.nodes.rows,
      (types.managedOf? object.className).map ManagedType.typeName = some node.typeName))

theorem Reproduces.resembles {types : TypeTable} {alignment : Alignment} {graph : Graph}
    {root : GlobalId} {names : List GlobalId} {shadow : Shadow}
    (reproduces : Reproduces types alignment graph root names shadow) (closed : graph.Closed)
    (member : root ∈ graph.ids) : Resembles types graph shadow := by
  constructor
  · rw [reproduces.size]
    exact (List.subperm_of_subset reproduces.distinct fun id named =>
      ((reproduces.mem_iff id).mp named).mem_ids closed member).length_le
  · intro object object_mem
    obtain ⟨slot, stands⟩ := List.mem_iff_getElem?.mp object_mem
    have below : slot < names.length := by
      rw [← reproduces.size]
      exact (List.getElem?_eq_some_iff.mp stands).1
    obtain ⟨other, node, read, other_stands, found, reads, same, -⟩ :=
      reproduces.faithful slot names[slot] (List.getElem?_eq_getElem below)
    obtain rfl : object = other := Option.some.inj (stands.symm.trans other_stands)
    obtain ⟨managed, known, rfl⟩ := Option.map_eq_some_iff.mp reads
    exact ⟨node, Graph.mem_rows_of_find? found, by rw [known, ← same]; rfl⟩

/-- A snapshot matches a node: it is of the same type, and the node does not differ from it. -/
structure Matches (types : TypeTable) (alignment : Alignment) (snapshot : Snapshot) (node : Node) :
    Prop where
  /-- The snapshot is as captures make them. -/
  formed : snapshot.node.Formed types
  /-- The type is the same. -/
  typeName : snapshot.typeName = node.typeName
  /-- The node does not differ. -/
  same : compareNodes types alignment (some snapshot.node) (some node) = []

section Reading

variable {types : TypeTable} {alignment : Alignment} {live? : GlobalId → Option Snapshot}
  {root id : GlobalId} {names : List GlobalId} {link : GlobalId → Option Slot} {heap : Heap}
  {snapshot : Snapshot} {graph : Graph}

/-- The instance of a snapshot is read back as what the snapshot captured. -/
theorem readBack_instanceOf (names_distinct : types.NamesDistinct)
    (formed : snapshot.node.Formed types)
    (linked : ∀ target ∈ snapshot.state.references,
      (link target).bind (fun slot => names[slot]?) = some target) :
    readBack types names id (instanceOf types link snapshot) =
      some ⟨id, snapshot.typeName, .ofList snapshot.state.entries⟩ := by
  obtain ⟨managed, member, shown, named, -⟩ := formed.registered names_distinct
  have class_eq : (instanceOf types link snapshot).className = managed.className := by
    rw [instanceOf, Instance.className_ofList, classOf, show
      types.managedByName? snapshot.typeName = some managed from shown]
    rfl
  have stored_distinct : ((carry link snapshot.state.entries).map Prod.fst).Nodup := by
    rw [carry, List.map_map]
    exact formed.distinct
  have properties_eq : (instanceOf types link snapshot).properties.map (fun property =>
      (property.1, property.2.relink fun slot => names[slot]?)) = snapshot.state.entries := by
    rw [instanceOf, Instance.properties_ofList stored_distinct, carry, List.map_map]
    refine (List.map_congr_left fun entry entry_mem => ?_).trans (List.map_id _)
    have there_and_back : (entry.2.relink link).relink (fun slot => names[slot]?) = entry.2 :=
      Value.relink_relink entry.2 fun target refers =>
        linked target (List.mem_flatMap.mpr ⟨entry, entry_mem, refers⟩)
    exact Prod.ext rfl there_and_back
  rw [readBack, class_eq, names_distinct.managedOf? member, properties_eq]
  exact congrArg (fun typeName => some (Node.mk id typeName _)) named

/-- Comparing nodes of a registered type only looks values up. -/
theorem compareNodes_congr {old other node : Node}
    (registered : typeOf? types (some node) ≠ none) (typeNames : old.typeName = other.typeName)
    (values : ∀ name, old.state.get name = other.state.get name) :
    compareNodes types alignment (some old) (some node) =
      compareNodes types alignment (some other) (some node) := by
  have same_type : typeOf? types (some old) = typeOf? types (some other) := by
    simp only [typeOf?, Option.bind_some, typeNames]
  have same_properties : comparedProperties types (some old) (some node) =
      comparedProperties types (some other) (some node) := by
    rw [comparedProperties_registered (.inl registered),
      comparedProperties_registered (.inl registered), same_type]
  rw [compareNodes_eq types alignment rfl, compareNodes_eq types alignment rfl, same_properties]
  refine List.filterMap_congr fun property _ => ?_
  simp only [propertyChange, stateOf, Option.map_some, Option.getD_some, values]

/-- What is read back from a matching snapshot does not differ either. -/
theorem Matches.compareNodes_readBack (names_distinct : types.NamesDistinct) {node : Node}
    (matching : Matches types alignment snapshot node) :
    compareNodes types alignment
      (some ⟨id, snapshot.typeName, .ofList snapshot.state.entries⟩) (some node) = [] := by
  have registered : typeOf? types (some node) ≠ none := by
    obtain ⟨managed, -, shown, -⟩ := matching.formed.registered names_distinct
    have shown : types.managedByName? node.typeName = some managed := matching.typeName ▸ shown
    rw [typeOf?, Option.bind_some, shown]
    exact Option.some_ne_none managed
  rw [← matching.same]
  exact compareNodes_congr registered rfl fun name =>
    State.get_ofList_entries matching.formed.distinct name

/-- References lead to the same nodes in a graph and in snapshots that match it. -/
theorem linked_iff_reaches (closed : graph.Closed) (member : root ∈ graph.ids)
    (stands : ∀ id node, graph.Reaches root id → graph.find? id = some node →
      ∃ snapshot, live? id = some snapshot ∧
        ∀ target, target ∈ snapshot.state.references ↔ target ∈ node.state.references) :
    Linked .deep live? root id ↔ graph.Reaches root id := by
  have node_of {id : GlobalId} (reached : graph.Reaches root id) :
      ∃ node, graph.find? id = some node :=
    Option.isSome_iff_exists.mp (Graph.mem_ids_iff.mp (reached.mem_ids closed member))
  constructor
  · intro linked
    induction linked with
    | root => exact .root
    | step _ live refers _ induction =>
        obtain ⟨node, found⟩ := node_of induction
        obtain ⟨other, other_live, same⟩ := stands _ node induction found
        obtain rfl := Option.some.inj (live.symm.trans other_live)
        exact .step induction found ((same _).mp refers)
  · intro reached
    induction reached with
    | root => exact .root
    | @step owner target node reached found refers induction =>
        obtain ⟨snapshot, live, same⟩ := stands owner node reached found
        have next : graph.Reaches root target := .step reached found refers
        obtain ⟨target_node, target_found⟩ := node_of next
        obtain ⟨_, target_live, -⟩ := stands target target_node next target_found
        exact .step induction live ((same target).mpr refers)
          ⟨.inl rfl, Option.isSome_of_eq_some target_live⟩

/-- A heap rebuilt from snapshots that match a graph reproduces the graph. -/
theorem Rebuilt.reproduces (are : types.ComparatorsAre (fun _ => True) fun _ => False)
    (names_distinct : types.NamesDistinct) (compares : types.ComparesCaptured)
    (closed : graph.Closed) (formed : ∀ node ∈ graph.nodes.rows, node.Formed types)
    (keys : ∀ node ∈ graph.nodes.rows, ∀ entry ∈ node.state.entries, entry.2.KeysDistinct)
    (member : root ∈ graph.ids) (commit : CommitMetadata)
    (matching : ∀ id node, graph.Reaches root id → graph.find? id = some node →
      ∃ snapshot, live? id = some snapshot ∧ Matches types alignment snapshot node)
    (rebuilt : Rebuilt types .deep live? root names link heap) :
    Reproduces types alignment graph root names ⟨heap, 0, commit⟩ := by
  have same_references {id : GlobalId} {node : Node} {snapshot : Snapshot}
      (found : graph.find? id = some node) (matches_node : Matches types alignment snapshot node)
      (target : GlobalId) :
      target ∈ snapshot.state.references ↔ target ∈ node.state.references :=
    references_of_compareNodes are names_distinct compares alignment matches_node.formed
      (formed node (Graph.mem_rows_of_find? found)) matches_node.typeName
      (keys node (Graph.mem_rows_of_find? found)) matches_node.same
  have mem_iff (id : GlobalId) : id ∈ names ↔ graph.Reaches root id := by
    refine (rebuilt.mem_iff id).trans (linked_iff_reaches closed member ?_)
    intro id node reached found
    obtain ⟨snapshot, live, matches_node⟩ := matching id node reached found
    exact ⟨snapshot, live, same_references found matches_node⟩
  refine ⟨rebuilt.size, rebuilt.distinct, rebuilt.first, mem_iff, fun slot id named => ?_⟩
  have reached := (mem_iff id).mp (List.mem_of_getElem? named)
  obtain ⟨node, found⟩ :=
    Option.isSome_iff_exists.mp (Graph.mem_ids_iff.mp (reached.mem_ids closed member))
  obtain ⟨snapshot, live, matches_node⟩ := matching id node reached found
  obtain ⟨other, other_live, stands⟩ := rebuilt.get?_eq slot id named
  obtain rfl : snapshot = other := Option.some.inj (live.symm.trans other_live)
  have linked (target : GlobalId) (refers : target ∈ snapshot.state.references) :
      (link target).bind (fun slot => names[slot]?) = some target := by
    have target_reached : graph.Reaches root target :=
      .step reached found ((same_references found matches_node target).mp refers)
    obtain ⟨target_slot, target_named⟩ :=
      List.mem_iff_getElem?.mp ((mem_iff target).mpr target_reached)
    rw [(rebuilt.link_iff target target_slot).mpr target_named, Option.bind_some, target_named]
  exact ⟨_, node, _, stands, found, readBack_instanceOf names_distinct matches_node.formed linked,
    matches_node.typeName, matches_node.compareNodes_readBack names_distinct⟩

end Reading

end Shadow
end AuditTrail
