import AuditTrail.Proofs.Capture.Content
import AuditTrail.Proofs.Capture.Tracing
import AuditTrail.Proofs.Schema.Acceptance
import AuditTrail.Proofs.Shadow.Reading

/-!
# Copies of captured objects

An instance rebuilt from a node holds what the captured instance held, with each reference led to
the copy of its target, but without what was captured as null.  Where copies are told apart as the
names of the captured objects are, every reference leads to the same kind of thing in the copied
heap, and a value object whose content says nothing more than what is kept has its content there.
-/

namespace AuditTrail

open Schema Capture

/-- An instance with the properties of a state holds what the state stores. -/
theorem Instance.get?_ofList_carry {className : String} {link : GlobalId → Option Slot}
    {state : State} (distinct : state.names.Nodup)
    (stored : ∀ entry ∈ state.entries, ¬ entry.2.isNull) (name : String) :
    (ofList className (Shadow.carry link state.entries)).get? name =
      if (state.get name).isNull then none else some ((state.get name).relink link) := by
  have carried : ((Shadow.carry link state.entries).map Prod.fst).Nodup := by
    rw [Shadow.carry, List.map_map]
    exact distinct
  rw [get?, properties_ofList carried, Shadow.carry, List.find?_map, State.get]
  cases found : state.entries.find? fun entry => entry.1 == name with
  | none => simp [found, Value.isNull]
  | some entry =>
      have nonnull := stored entry (List.mem_of_find?_eq_some found)
      simp [found, nonnull]

namespace Shadow

/-- An instance holds what is kept of another one, with other references and without nulls. -/
structure Copies (types : TypeTable) (view : Slot → Option Slot) (object copied : Instance)
    (managed : ManagedType) : Prop where
  /-- The copy is of the same type. -/
  typed : types.managedOf? copied.className = some managed
  /-- What is kept is set, unless it becomes null. -/
  set : ∀ entry ∈ kept types object managed.properties, copied.get? entry.1 =
    if (entry.2.relink view).isNull then none else some (entry.2.relink view)
  /-- What is unset stays unset. -/
  unset : ∀ name, object.get? name = none → copied.get? name = none

/-- Where the copy of what is referred to stands. -/
def view (types : TypeTable) (heap : Heap) (names : Walk) (link : GlobalId → Option Slot)
    (slot : Slot) : Option Slot :=
  (names.nameOf types heap slot).bind link

/-- What is referred to is not captured, or is a node of the graph. -/
def Met (types : TypeTable) (heap : Heap) (names : Walk) (graph : Graph) (slot : Slot) : Prop :=
  referentAt types heap slot = .ok .skipped ∨
    ∃ id ∈ graph.ids, names.nameOf types heap slot = some id

/-- A heap holds a copy of every node of a captured graph. -/
structure Copied (types : TypeTable) (heap copy : Heap) (names : Walk) (graph : Graph)
    (link : GlobalId → Option Slot) : Prop where
  /-- The types are those of an accepted registry. -/
  accepted : ∃ definitions, TypeTable.ofDefinitions definitions = .ok types
  /-- No object is named twice. -/
  proper : names.Proper
  /-- No name is given twice. -/
  distinct : (names.names.map Prod.snd).Nodup
  /-- Named objects are nodes. -/
  named : ∀ entry ∈ names.names, entry.2 ∈ graph.ids
  /-- References lead to nodes. -/
  closed : graph.Closed
  /-- Nodes show the objects of their names. -/
  shown : ∀ id node, graph.find? id = some node → names.Shows types heap id node
  /-- No slot holds the copies of two nodes. -/
  injective : ∀ id other slot, link id = some slot → link other = some slot → id = other
  /-- Each node has a copy. -/
  stands : ∀ id node, graph.find? id = some node → ∃ slot snapshot, link id = some slot ∧
    snapshot.node = node ∧ copy.get? slot = some (instanceOf types link snapshot)

section Copied

variable {types : TypeTable} {heap copy : Heap} {names : Walk} {graph : Graph}
  {link : GlobalId → Option Slot} {slot : Slot} {id : GlobalId} {node : Node}
  {object : Instance} {managed : ManagedType}

theorem Copied.linked (copied : Copied types heap copy names graph link) (member : id ∈ graph.ids) :
    ∃ twin, link id = some twin := by
  obtain ⟨node, found⟩ := Option.isSome_iff_exists.mp (Graph.mem_ids_iff.mp member)
  obtain ⟨twin, -, linked, -⟩ := copied.stands id node found
  exact ⟨twin, linked⟩

/-- What a node's instance refers to is met. -/
theorem Copied.met (copied : Copied types heap copy names graph link)
    (found : graph.find? id = some node) (depicts : Depicts types heap names object managed node)
    {entry : String × Live} (kept_entry : entry ∈ kept types object managed.properties)
    {target : Slot} (refers : target ∈ entry.2.references) :
    Met types heap names graph target := by
  refine (depicts.settled entry kept_entry target refers).imp_right fun ⟨other, other_named⟩ => ?_
  refine ⟨other, ?_, other_named⟩
  exact copied.closed node (Graph.mem_rows_of_find? found) other
    (depicts.refers kept_entry refers other_named)

/-- What is met has no copy exactly if it is not captured. -/
theorem Copied.view_eq_none_iff (copied : Copied types heap copy names graph link)
    (met : Met types heap names graph slot) :
    view types heap names link slot = none ↔ referentAt types heap slot = .ok .skipped := by
  rcases met with skipped | ⟨id, member, id_named⟩
  · simp [view, Walk.nameOf, skipped]
  · obtain ⟨twin, linked⟩ := copied.linked member
    have unskipped : referentAt types heap slot ≠ .ok .skipped := by
      intro skipped
      rw [Walk.nameOf, skipped] at id_named
      cases id_named
    simp [view, id_named, linked, unskipped]

/-- The copy of a node copies the instance that the node shows. -/
theorem Copied.copies (copied : Copied types heap copy names graph link)
    (found : graph.find? id = some node) (depicts : Depicts types heap names object managed node) :
    ∃ twin twin_object, link id = some twin ∧ copy.get? twin = some twin_object ∧
      Copies types (view types heap names link) object twin_object managed := by
  obtain ⟨definitions, accepted⟩ := copied.accepted
  have names_distinct := TypeTable.namesDistinct_ofDefinitions accepted
  have member : managed ∈ types.managed := List.mem_of_find?_eq_some depicts.typed
  obtain ⟨twin, snapshot, linked, rfl, twin_stands⟩ := copied.stands id node found
  have get?_eq (name : String) : (instanceOf types link snapshot).get? name =
      if (snapshot.state.get name).isNull then none
      else some ((snapshot.state.get name).relink link) := by
    refine Instance.get?_ofList_carry depicts.distinct ?_ name
    rw [depicts.state]
    exact State.stored_ofList _
  refine ⟨twin, _, linked, twin_stands, ⟨?_, fun entry kept_entry => ?_, fun name unset => ?_⟩⟩
  · have shown_name : snapshot.typeName = managed.typeName := depicts.typeName
    rw [instanceOf, Instance.className_ofList, classOf, shown_name,
      names_distinct.managedByName? member]
    exact names_distinct.managedOf? member
  · have stored : snapshot.state.get entry.1 =
        entry.2.relink (names.nameOf types heap) := depicts.get_of_kept kept_entry
    have same_null : (entry.2.relink (names.nameOf types heap)).isNull =
        (entry.2.relink (view types heap names link)).isNull := by
      rw [Bool.eq_iff_iff, Value.isNull_relink_iff, Value.isNull_relink_iff]
      refine or_congr_right (exists_congr fun target => and_congr_right fun same => ?_)
      have met : Met types heap names graph target := copied.met found depicts kept_entry
        (by rw [same, Value.references]; exact List.mem_singleton_self target)
      rw [copied.view_eq_none_iff met]
      rcases met with skipped | ⟨other, -, other_named⟩
      · simp [Walk.nameOf, skipped]
      · rw [other_named]
        refine iff_of_false (Option.some_ne_none other) fun skipped => ?_
        rw [Walk.nameOf, skipped] at other_named
        cases other_named
    rw [get?_eq, stored, same_null, Value.relink_bind]
    rfl
  · rw [get?_eq, show snapshot.state.get name = .null from ?_]
    · rfl
    · rw [show snapshot.state.get name = _ from depicts.get_eq name, unset, Option.map_none,
        Option.getD_none, ite_self]

/-- A named object is the one that the node of its name shows. -/
theorem Copied.slot_unique (copied : Copied types heap copy names graph link)
    (slot_named : (slot, id) ∈ names.names) {other : Slot}
    (other_named : names.nameOf types heap other = some id) : other = slot := by
  have owned := copied.proper.owned _ slot_named
  rcases nameOf_eq_some_iff.mp other_named with entity | ⟨_, _, -, named⟩
  · exact absurd owned (not_isValueObject_of_entity entity)
  · exact congrArg Prod.fst (List.inj_on_of_nodup_map copied.distinct
      (copied.proper.name?_eq_some_iff.mp named) slot_named rfl)

/-- What a reference leads to, and what its copy leads to in the copied heap. -/
inductive Mirrored (types : TypeTable) (heap copy : Heap) (names : Walk) (graph : Graph)
    (link : GlobalId → Option Slot) (slot : Slot) : Prop
  /-- What is not captured has no copy. -/
  | skipped (found : referentAt types heap slot = .ok .skipped)
  /-- The copy of an entity has its id. -/
  | entity {id : GlobalId} {twin : Slot} (found : referentAt types heap slot = .ok (.entity id))
      (linked : link id = some twin) (twin_found : referentAt types copy twin = .ok (.entity id))
  /-- The copy of a value object holds what is kept of it. -/
  | valueObject {id : GlobalId} {twin : Slot} {object twin_object : Instance}
      {managed : ManagedType}
      (found : referentAt types heap slot = .ok (.valueObject object managed))
      (named : (slot, id) ∈ names.names) (linked : link id = some twin)
      (twin_found : referentAt types copy twin = .ok (.valueObject twin_object managed))
      (copies : Copies types (view types heap names link) object twin_object managed)
      (met : ∀ entry ∈ kept types object managed.properties, ∀ target ∈ entry.2.references,
        Met types heap names graph target)

/-- The copy of an entity has its id. -/
theorem Copied.entityId_eq (copied : Copied types heap copy names graph link)
    {twin_object : Instance}
    (copies : Copies types (view types heap names link) object twin_object managed)
    (typed : types.managedOf? object.className = some managed)
    (identified : entityId object managed = .ok id) : entityId twin_object managed = .ok id := by
  obtain ⟨definitions, accepted⟩ := copied.accepted
  obtain ⟨name, leaf, localId, identity, set, read, rfl⟩ := entityId_eq_ok_iff.mp identified
  obtain ⟨property, declared, rfl, heeded⟩ := TypeTable.identity_of_ofDefinitions accepted
    (List.mem_of_find?_eq_some typed) identity
  have kept_entry : (property.name, .scalar leaf) ∈ kept types object managed.properties :=
    mem_kept_iff.mpr ⟨property, declared, heeded, rfl, set⟩
  have twin_set : twin_object.get? property.name = some (.scalar leaf) := by
    simpa [Value.relink, Value.isNull] using copies.set _ kept_entry
  exact entityId_eq_ok_iff.mpr ⟨property.name, leaf, localId, identity, twin_set, read, rfl⟩

/-- Everything that is met is mirrored in the copied heap. -/
theorem Copied.mirrored (copied : Copied types heap copy names graph link)
    (met : Met types heap names graph slot) :
    Mirrored types heap copy names graph link slot := by
  obtain ⟨definitions, accepted⟩ := copied.accepted
  rcases met with skipped | ⟨id, member, id_named⟩
  · exact .skipped skipped
  obtain ⟨node, node_found⟩ := Option.isSome_iff_exists.mp (Graph.mem_ids_iff.mp member)
  obtain ⟨owner, object, managed, owner_named, owner_stands, depicts⟩ :=
    copied.shown id node node_found
  obtain ⟨twin, twin_object, linked, twin_stands, copies⟩ := copied.copies node_found depicts
  rcases nameOf_eq_some_iff.mp id_named with entity | ⟨slot_object, slot_managed, found, named⟩
  · refine .entity entity linked ?_
    -- The node may show another object of the same id.
    have owner_entity : referentAt types heap owner = .ok (.entity id) := by
      rcases nameOf_eq_some_iff.mp owner_named with owner_entity | ⟨_, _, -, owner_name⟩
      · exact owner_entity
      · exact absurd (copied.proper.owned _ (copied.proper.name?_eq_some_iff.mp owner_name))
          (not_isValueObject_of_entity entity)
    obtain ⟨other, other_managed, other_stands, -, other_typed, is_entity, identified⟩ :=
      referentAt_eq_entity_iff.mp owner_entity
    obtain rfl := Option.some.inj (owner_stands.symm.trans other_stands)
    obtain rfl := Option.some.inj (depicts.typed.symm.trans other_typed)
    exact referentAt_eq_entity_iff.mpr ⟨twin_object, managed, twin_stands,
      TypeTable.heeded_of_ofDefinitions accepted copies.typed, copies.typed, is_entity,
      copied.entityId_eq copies depicts.typed identified⟩
  · have slot_named := copied.proper.name?_eq_some_iff.mp named
    obtain rfl := copied.slot_unique slot_named owner_named
    obtain ⟨slot_stands, -, slot_typed, plain⟩ := referentAt_eq_valueObject_iff.mp found
    obtain rfl := Option.some.inj (owner_stands.symm.trans slot_stands)
    obtain rfl := Option.some.inj (depicts.typed.symm.trans slot_typed)
    refine .valueObject found slot_named linked ?_ copies fun entry kept_entry target refers =>
      copied.met node_found depicts kept_entry refers
    exact referentAt_eq_valueObject_iff.mpr ⟨twin_stands,
      TypeTable.heeded_of_ofDefinitions accepted copies.typed, copies.typed, plain⟩

/-- A named object and where its copy stands. -/
def Twins (names : Walk) (link : GlobalId → Option Slot) (slot twin : Slot) : Prop :=
  ∃ id, (slot, id) ∈ names.names ∧ link id = some twin

/-- Named objects have one copy each, and no two of them the same. -/
theorem Copied.biUnique_twins (copied : Copied types heap copy names graph link) :
    Relator.BiUnique (Twins names link) := by
  constructor
  · rintro slot twin other ⟨id, slot_named, linked⟩ ⟨other_id, other_named, other_linked⟩
    obtain rfl := copied.injective id other_id other linked other_linked
    exact congrArg Prod.fst (List.inj_on_of_nodup_map copied.distinct slot_named other_named rfl)
  · rintro slot twin other ⟨id, slot_named, linked⟩ ⟨other_id, other_named, other_linked⟩
    obtain rfl : id = other_id := congrArg Prod.snd
      (List.inj_on_of_nodup_map copied.proper.once slot_named other_named rfl)
    exact Option.some.inj (linked.symm.trans other_linked)

/-- A copy is written out as the copied instance, if all that is set is kept. -/
theorem Copied.propertiesContent_eq (copied : Copied types heap copy names graph link)
    {twin_object : Instance} {write other : Slot → Except CaptureError String}
    (copies : Copies types (view types heap names link) object twin_object managed)
    (met : ∀ entry ∈ kept types object managed.properties, ∀ target ∈ entry.2.references,
      Met types heap names graph target)
    (whole : Whole types heap object managed) {properties : List Property}
    (among : properties ⊆ managed.properties)
    (same : ∀ property ∈ managed.properties, ∀ value, object.get? property.name = some value →
      ∀ target ∈ value.references, Met types heap names graph target →
        write target = ((view types heap names link target).map other).getD (.ok "null")) :
    propertiesContent write object properties = propertiesContent other twin_object properties := by
  induction properties with
  | nil => rfl
  | cons property rest induction =>
      have declared : property ∈ managed.properties := among List.mem_cons_self
      rw [propertiesContent, propertiesContent,
        induction fun _ member => among (List.mem_cons_of_mem _ member)]
      cases set : object.get? property.name with
      | none => rw [copies.unset _ set]
      | some value =>
          obtain ⟨heeded, present⟩ := whole property declared value set
          have kept_entry : (property.name, value) ∈ kept types object managed.properties :=
            mem_kept_iff.mpr ⟨property, declared, heeded, rfl, set⟩
          have nonnull : ¬ (value.relink (view types heap names link)).isNull := by
            rw [Value.isNull_relink_iff]
            rintro (rfl | ⟨target, rfl, unseen⟩)
            · exact present (readsNull_iff.mpr (.inl rfl))
            · have target_met := met _ kept_entry target
                (by rw [Value.references]; exact List.mem_singleton_self target)
              exact present (readsNull_iff.mpr
                (.inr ⟨target, rfl, (copied.view_eq_none_iff target_met).mp unseen⟩))
          have twin_set := copies.set _ kept_entry
          rw [if_neg nonnull] at twin_set
          rw [twin_set]
          simp only
          rw [valueContent_relink value fun target refers =>
            same property declared value set target refers (met _ kept_entry target refers)]

theorem view_of_entity {twin : Slot} (found : referentAt types heap slot = .ok (.entity id))
    (linked : link id = some twin) : view types heap names link slot = some twin := by
  rw [view, nameOf_eq_some_iff.mpr (.inl found), Option.bind_some, linked]

theorem Copied.view_of_valueObject (copied : Copied types heap copy names graph link) {twin : Slot}
    (found : referentAt types heap slot = .ok (.valueObject object managed))
    (slot_named : (slot, id) ∈ names.names) (linked : link id = some twin) :
    view types heap names link slot = some twin := by
  have name_eq := copied.proper.name?_eq_some_iff.mpr slot_named
  rw [view, nameOf_eq_some_iff.mpr (.inr ⟨object, managed, found, name_eq⟩), Option.bind_some,
    linked]

/-- What is met is written out as its copy, if value objects off the path are. -/
theorem Copied.refContent_congr (copied : Copied types heap copy names graph link) {room : Nat}
    {path twins : List Slot} (stand : List.Forall₂ (Twins names link) path twins)
    (met : Met types heap names graph slot)
    (same : ∀ id twin object twin_object managed,
      referentAt types heap slot = .ok (.valueObject object managed) → (slot, id) ∈ names.names →
      link id = some twin → referentAt types copy twin = .ok (.valueObject twin_object managed) →
      Copies types (view types heap names link) object twin_object managed →
      (∀ entry ∈ kept types object managed.properties, ∀ target ∈ entry.2.references,
        Met types heap names graph target) → slot ∉ path → twin ∉ twins →
      refContent types heap room path slot = refContent types copy room twins twin) :
    refContent types heap room path slot =
      ((view types heap names link slot).map (refContent types copy room twins)).getD
        (.ok "null") := by
  cases copied.mirrored met with
  | skipped found =>
      rw [(copied.view_eq_none_iff met).mpr found, refContent_of_skipped found]
      rfl
  | entity found linked twin_found =>
      rw [view_of_entity found linked, refContent_of_entity found, Option.map_some,
        Option.getD_some, refContent_of_entity twin_found]
  | @valueObject id twin object twin_object managed found named linked twin_found copies further =>
      rw [copied.view_of_valueObject found named linked, Option.map_some, Option.getD_some]
      have same_place : slot ∈ path ↔ twin ∈ twins :=
        List.rel_mem copied.biUnique_twins ⟨id, named, linked⟩ stand
      by_cases on_path : slot ∈ path
      · rw [refContent_of_mem found on_path, refContent_of_mem twin_found (same_place.mp on_path)]
      · exact same id twin object twin_object managed found named linked twin_found copies further
          on_path fun member => on_path (same_place.mpr member)

/-- A value object is written out as its copy, if all that contents say is kept. -/
theorem Copied.refContent_eq (copied : Copied types heap copy names graph link) {root : Slot}
    (whole : WrittenWhole types heap root) (room : Nat) {path twins : List Slot}
    (stand : List.Forall₂ (Twins names link) path twins) (written : Written types heap root slot)
    (met : Met types heap names graph slot) :
    refContent types heap room path slot =
      ((view types heap names link slot).map (refContent types copy room twins)).getD
        (.ok "null") := by
  induction room generalizing path twins slot with
  | zero =>
      refine copied.refContent_congr stand met ?_
      intro id twin object twin_object managed found _ _ twin_found _ _ _ _
      rw [refContent_of_full found, refContent_of_full twin_found]
  | succ room induction =>
      refine copied.refContent_congr stand met ?_
      intro id twin object twin_object managed found named linked twin_found copies further
        off_path off_twins
      rw [refContent_of_notMem found off_path, refContent_of_notMem twin_found off_twins,
        copied.propertiesContent_eq copies further (whole slot object managed written found)
          (List.Subset.refl _) fun property declared value set target refers target_met =>
            induction (.cons ⟨id, named, linked⟩ stand)
              (.property written found declared set refers) target_met]

/-- An element of a set is named by the content of its copy, if all that contents say is kept. -/
theorem Copied.contentName_eq (copied : Copied types heap copy names graph link) {root : Slot}
    (whole : WrittenWhole types heap root) (written : Written types heap root slot)
    (met : Met types heap names graph slot) {twin : Slot}
    (seen : view types heap names link slot = some twin) :
    contentName types heap (.ref slot) = contentName types copy (.ref twin) := by
  have same := copied.refContent_eq whole (max heap.size copy.size) .nil written met
  rw [seen, Option.map_some, Option.getD_some] at same
  rw [contentName, contentName, content_eq_of_room (Nat.le_max_left heap.size copy.size),
    content_eq_of_room (Nat.le_max_right heap.size copy.size), valueContent, valueContent, same]

end Copied

end Shadow
end AuditTrail
