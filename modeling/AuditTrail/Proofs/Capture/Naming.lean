import AuditTrail.Proofs.Capture.Closed
import AuditTrail.Proofs.Schema.Names
import AuditTrail.Proofs.Value.Relink

/-!
# Names of captured objects

A capture names a value object when it first refers to it and never again, so what it refers to has
one name throughout.  Every captured node then holds what its instance holds, with each reference
replaced by the name of its target.
-/

namespace AuditTrail

open Schema

theorem GlobalId.isValueObject_child (owner : GlobalId) (path : String) :
    (owner.child path).isValueObject := by
  cases owner <;> rfl

namespace Capture

theorem entityId_eq_ok_iff {object : Instance} {managed : ManagedType} {id : GlobalId} :
    entityId object managed = .ok id ↔ ∃ property leaf localId,
      managed.idProperty = some property ∧ object.get? property = some (.scalar leaf) ∧
        LocalId.ofScalar? leaf = some localId ∧ id = .entity managed.typeName localId := by
  unfold entityId
  cases managed.idProperty with
  | none => simp
  | some property =>
      cases set : object.get? property with
      | none => simp [set]
      | some value =>
          cases value with
          | scalar leaf => cases read : LocalId.ofScalar? leaf <;> simp [set, read, eq_comm]
          | null | ref | seq | map => simp [set]

/-- The name of what a reference leads to; there is none for an instance of an ignored class. -/
def Walk.nameOf (types : TypeTable) (heap : Heap) (walk : Walk) (slot : Slot) : Option GlobalId :=
  match referentAt types heap slot with
  | .ok (.entity id) => some id
  | .ok (.valueObject _ _) => walk.name? slot
  | .ok .skipped | .error _ => none

/-- A reference leads to an instance of an ignored class or to something that has a name. -/
def Walk.Settles (types : TypeTable) (heap : Heap) (walk : Walk) (slot : Slot) : Prop :=
  referentAt types heap slot = .ok .skipped ∨ ∃ id, walk.nameOf types heap slot = some id

/-- No object is named twice, and names are those of value objects. -/
structure Walk.Proper (walk : Walk) : Prop where
  /-- No object is named twice. -/
  once : (walk.names.map Prod.fst).Nodup
  /-- Names are those of value objects. -/
  owned : ∀ entry ∈ walk.names, entry.2.isValueObject

/-- A walk goes on and settles references. -/
structure Settling (types : TypeTable) (heap : Heap) (before after : Walk)
    (references : List Slot) : Prop where
  /-- Names stay. -/
  names : before.names <:+ after.names
  /-- No object is named twice. -/
  proper : after.Proper
  /-- What waited still waits. -/
  stays : before.pending ⊆ after.pending
  /-- Objects that are named newly wait. -/
  newly : ∀ entry ∈ after.names, entry ∈ before.names ∨ entry ∈ after.pending
  /-- What waits newly is referred to, and waits under its name. -/
  waiting : ∀ entry ∈ after.pending, entry ∈ before.pending ∨
    entry.1 ∈ references ∧ after.nameOf types heap entry.1 = some entry.2
  /-- References are settled. -/
  settled : ∀ slot ∈ references, after.Settles types heap slot

section Walks

variable {types : TypeTable} {heap : Heap} {walk before between after : Walk} {slot : Slot}
  {id : GlobalId} {references more : List Slot}

theorem Walk.Proper.name?_eq_some_iff (proper : walk.Proper) :
    walk.name? slot = some id ↔ (slot, id) ∈ walk.names := by
  constructor
  · intro found
    obtain ⟨entry, first, rfl⟩ := Option.map_eq_some_iff.mp found
    have here : entry.1 = slot := by simpa using List.find?_some first
    rw [← here]
    exact List.mem_of_find?_eq_some first
  · intro member
    exact Option.map_eq_some_iff.mpr ⟨(slot, id), find?_key_of_nodup proper.once member, rfl⟩

theorem nameOf_eq_some_iff : walk.nameOf types heap slot = some id ↔
    referentAt types heap slot = .ok (.entity id) ∨ ∃ object managed,
      referentAt types heap slot = .ok (.valueObject object managed) ∧
        walk.name? slot = some id := by
  unfold Walk.nameOf
  split
  next found => simp [found]
  next found => simp [found]
  next found => simp [found]
  next found => simp [found]

/-- Entities and value objects have different ids. -/
theorem not_isValueObject_of_entity (found : referentAt types heap slot = .ok (.entity id)) :
    ¬ id.isValueObject := by
  obtain ⟨object, -, found⟩ := bind_eq_ok_iff.mp found
  split at found
  · cases found
  · obtain ⟨managed, -, found⟩ := bind_eq_ok_iff.mp found
    split at found
    · obtain ⟨other, identified, found⟩ := bind_eq_ok_iff.mp found
      cases found
      obtain ⟨_, _, _, -, -, -, rfl⟩ := entityId_eq_ok_iff.mp identified
      exact Bool.false_ne_true
    · cases found

/-- A name that was given stays. -/
theorem nameOf_of_suffix (names : before.names <:+ after.names) (proper : after.Proper)
    (named : before.nameOf types heap slot = some id) :
    after.nameOf types heap slot = some id := by
  have before_proper : before.Proper :=
    ⟨proper.once.sublist (names.sublist.map _), fun entry member =>
      proper.owned entry (names.subset member)⟩
  unfold Walk.nameOf at named ⊢
  split at named
  next => exact named
  next =>
    exact proper.name?_eq_some_iff.mpr (names.subset (before_proper.name?_eq_some_iff.mp named))
  next => cases named
  next => cases named

theorem Walk.Settles.of_suffix (names : before.names <:+ after.names) (proper : after.Proper)
    (settled : before.Settles types heap slot) :
    after.Settles types heap slot ∧
      after.nameOf types heap slot = before.nameOf types heap slot := by
  rcases settled with skipped | ⟨id, named⟩
  · refine ⟨.inl skipped, ?_⟩
    simp only [Walk.nameOf, skipped]
  · have later := nameOf_of_suffix names proper named
    exact ⟨.inr ⟨id, later⟩, later.trans named.symm⟩

theorem Settling.refl (proper : walk.Proper) : Settling types heap walk walk [] where
  names := List.suffix_refl _
  proper := proper
  stays := List.Subset.refl _
  newly _ member := .inl member
  waiting _ member := .inl member
  settled _ member := nomatch member

theorem Settling.trans (first : Settling types heap before between references)
    (second : Settling types heap between after more) :
    Settling types heap before after (references ++ more) where
  names := first.names.trans second.names
  proper := second.proper
  stays _ member := second.stays (first.stays member)
  newly entry member := by
    rcases second.newly entry member with older | newly
    · exact (first.newly entry older).imp_right fun waits => second.stays waits
    · exact .inr newly
  waiting entry member := by
    rcases second.waiting entry member with older | ⟨refers, named⟩
    · refine (first.waiting entry older).imp_right fun ⟨refers, named⟩ => ?_
      exact ⟨List.mem_append_left _ refers, nameOf_of_suffix second.names second.proper named⟩
    · exact .inr ⟨List.mem_append_right _ refers, named⟩
  settled slot member := by
    rcases List.mem_append.mp member with member | member
    · exact ((first.settled slot member).of_suffix second.names second.proper).1
    · exact second.settled slot member

/-- A reference that is settled already leaves the walk as it is. -/
theorem Settling.stay (proper : walk.Proper) (settles : walk.Settles types heap slot) :
    Settling types heap walk walk [slot] where
  names := List.suffix_refl _
  proper := proper
  stays := List.Subset.refl _
  newly _ member := .inl member
  waiting _ member := .inl member
  settled other member := by
    rw [List.mem_singleton.mp member]
    exact settles

/-- A reference is settled by letting its target wait under its name. -/
theorem Settling.come (names : walk.names <:+ after.names) (proper : after.Proper)
    (waits : after.pending = (slot, id) :: walk.pending)
    (newly : ∀ entry ∈ after.names, entry ∈ walk.names ∨ entry = (slot, id))
    (named : after.nameOf types heap slot = some id) :
    Settling types heap walk after [slot] where
  names := names
  proper := proper
  stays := by
    rw [waits]
    exact List.subset_cons_self _ _
  newly entry member := by
    rw [waits]
    rcases newly entry member with older | rfl
    · exact .inl older
    · exact .inr List.mem_cons_self
  waiting entry member := by
    rw [waits] at member
    rcases List.mem_cons.mp member with rfl | older
    · exact .inr ⟨List.mem_singleton_self _, named⟩
    · exact .inl older
  settled other member := by
    rw [List.mem_singleton.mp member]
    exact .inr ⟨id, named⟩

/-- What waits behind a step waits under its name, if what waited did. -/
theorem Settling.named_waiting (settling : Settling types heap before after references)
    (named : ∀ entry ∈ before.pending, before.nameOf types heap entry.1 = some entry.2) :
    ∀ entry ∈ after.pending, after.nameOf types heap entry.1 = some entry.2 := by
  intro entry member
  rcases settling.waiting entry member with older | ⟨-, newly⟩
  · exact nameOf_of_suffix settling.names settling.proper (named entry older)
  · exact newly

/-- Values whose references are settled do not change when more names are given. -/
theorem Settling.relink_eq (first : Settling types heap before between references)
    (names : between.names <:+ after.names) (proper : after.Proper) {live : Live}
    (among : live.references ⊆ references) :
    live.relink (between.nameOf types heap) = live.relink (after.nameOf types heap) :=
  Value.relink_congr live fun target refers =>
    ((first.settled target (among refers)).of_suffix names proper).2.symm

end Walks

section Values

variable {types : TypeTable} {heap : Heap} {owner : GlobalId}

theorem relink_ref_of_nameOf {walk : Walk} {slot : Slot} {id : GlobalId}
    (named : walk.nameOf types heap slot = some id) :
    (Value.ref slot : Live).relink (walk.nameOf types heap) = .ref id := by
  rw [Value.relink, named]
  rfl

/-- A name may be given to what has none, if it is the name of a value object. -/
theorem Walk.Proper.giveName {walk : Walk} {slot : Slot} {id : GlobalId} (proper : walk.Proper)
    (unnamed : walk.name? slot = none) (owned : id.isValueObject) :
    ((walk.giveName slot id).push slot id).Proper := by
  have fresh : slot ∉ walk.names.map Prod.fst := by
    intro member
    obtain ⟨⟨_, other⟩, entry_mem, rfl⟩ := List.mem_map.mp member
    rw [proper.name?_eq_some_iff.mpr entry_mem] at unnamed
    cases unnamed
  exact ⟨List.nodup_cons.mpr ⟨fresh, proper.once⟩, List.forall_mem_cons.mpr ⟨owned, proper.owned⟩⟩

/-- A captured reference is the name of its target. -/
theorem captureRef_settles {path : String} {slot : Slot} {walk after : Walk} {value : Captured}
    (proper : walk.Proper)
    (captured : captureRef types heap owner path slot walk = .ok (value, after)) :
    Settling types heap walk after [slot] ∧
      value = (Value.ref slot : Live).relink (after.nameOf types heap) := by
  obtain ⟨referent, found, captured⟩ := bind_eq_ok_iff.mp captured
  cases referent with
  | skipped =>
      cases captured
      refine ⟨.stay proper (.inl found), ?_⟩
      rw [Value.relink, Walk.nameOf, found]
      rfl
  | entity id =>
      cases captured
      have named : (walk.push slot id).nameOf types heap slot = some id :=
        nameOf_eq_some_iff.mpr (.inl found)
      exact ⟨.come (List.suffix_refl _) ⟨proper.once, proper.owned⟩ rfl
        (fun _ member => .inl member) named, (relink_ref_of_nameOf named).symm⟩
  | valueObject object managed =>
      cases known : walk.name? slot with
      | some id =>
          simp only [known] at captured
          cases captured
          have named : walk.nameOf types heap slot = some id :=
            nameOf_eq_some_iff.mpr (.inr ⟨object, managed, found, known⟩)
          exact ⟨.stay proper (.inr ⟨id, named⟩), (relink_ref_of_nameOf named).symm⟩
      | none =>
          simp only [known] at captured
          cases captured
          have next := proper.giveName known (owner.isValueObject_child path)
          have named := nameOf_eq_some_iff.mpr (.inr ⟨object, managed, found,
            next.name?_eq_some_iff.mpr List.mem_cons_self⟩)
          refine ⟨.come (List.suffix_cons _ _) next rfl (fun entry member => ?_) named,
            (relink_ref_of_nameOf named).symm⟩
          exact (List.mem_cons.mp member).symm

mutual

theorem captureValue_settles {type : Classified} {path : String} {walk after : Walk} (live : Live)
    {value : Captured} (proper : walk.Proper)
    (captured : captureValue types heap owner type path live walk = .ok (value, after)) :
    Settling types heap walk after live.references ∧
      value = live.relink (after.nameOf types heap) := by
  cases live with
  | null | scalar =>
      rw [captureValue] at captured
      cases captured
      exact ⟨by simpa [Value.references] using Settling.refl proper, by simp only [Value.relink]⟩
  | ref slot =>
      rw [captureValue] at captured
      simpa only [Value.references] using captureRef_settles proper captured
  | seq items =>
      rw [captureValue] at captured
      obtain ⟨⟨values, reached⟩, items_captured, captured⟩ := bind_eq_ok_iff.mp captured
      cases captured
      obtain ⟨settling, rfl⟩ := captureItems_settles items proper items_captured
      exact ⟨by simpa only [Value.references] using settling, by simp only [Value.relink]⟩
  | map entries =>
      rw [captureValue] at captured
      obtain ⟨⟨values, reached⟩, entries_captured, captured⟩ := bind_eq_ok_iff.mp captured
      cases captured
      obtain ⟨settling, rfl⟩ := captureEntries_settles entries proper entries_captured
      exact ⟨by simpa only [Value.references] using settling, by simp only [Value.relink]⟩

theorem captureItems_settles {type : Classified} {path : String} {index : Nat} {walk after : Walk}
    (items : List Live) {values : List Captured} (proper : walk.Proper)
    (captured : captureItems types heap owner type path index items walk = .ok (values, after)) :
    Settling types heap walk after (Value.referencesOfItems items) ∧
      values = Value.relinkItems (after.nameOf types heap) items := by
  cases items with
  | nil =>
      rw [captureItems] at captured
      cases captured
      exact ⟨by simpa [Value.referencesOfItems] using Settling.refl proper,
        by simp only [Value.relinkItems]⟩
  | cons item rest =>
      rw [captureItems] at captured
      obtain ⟨place, -, captured⟩ := bind_eq_ok_iff.mp captured
      obtain ⟨⟨value, between⟩, item_captured, captured⟩ := bind_eq_ok_iff.mp captured
      obtain ⟨⟨others, reached⟩, rest_captured, captured⟩ := bind_eq_ok_iff.mp captured
      cases captured
      obtain ⟨first, rfl⟩ := captureValue_settles item proper item_captured
      obtain ⟨second, rfl⟩ := captureItems_settles rest first.proper rest_captured
      refine ⟨by simpa only [Value.referencesOfItems] using first.trans second, ?_⟩
      rw [Value.relinkItems, first.relink_eq second.names second.proper (List.Subset.refl _)]

theorem captureEntries_settles {type : Classified} {path : String} {index : Nat}
    {walk after : Walk} (entries : List (Live × Live)) {values : List (Captured × Captured)}
    (proper : walk.Proper)
    (captured : captureEntries types heap owner type path index entries walk =
      .ok (values, after)) :
    Settling types heap walk after (Value.referencesOfEntries entries) ∧
      values = Value.relinkEntries (after.nameOf types heap) entries := by
  cases entries with
  | nil =>
      rw [captureEntries] at captured
      cases captured
      exact ⟨by simpa [Value.referencesOfEntries] using Settling.refl proper,
        by simp only [Value.relinkEntries]⟩
  | cons entry rest =>
      obtain ⟨key, value⟩ := entry
      rw [captureEntries] at captured
      obtain ⟨⟨newKey, walk₁⟩, key_captured, captured⟩ := bind_eq_ok_iff.mp captured
      obtain ⟨⟨newValue, walk₂⟩, value_captured, captured⟩ := bind_eq_ok_iff.mp captured
      obtain ⟨⟨others, walk₃⟩, rest_captured, captured⟩ := bind_eq_ok_iff.mp captured
      cases captured
      obtain ⟨keys, rfl⟩ := captureValue_settles key proper key_captured
      obtain ⟨values, rfl⟩ := captureValue_settles value keys.proper value_captured
      obtain ⟨others, rfl⟩ := captureEntries_settles rest values.proper rest_captured
      refine ⟨by simpa only [Value.referencesOfEntries] using (keys.trans values).trans others, ?_⟩
      rw [Value.relinkEntries,
        keys.relink_eq (values.names.trans others.names) others.proper (List.Subset.refl _),
        values.relink_eq others.names others.proper (List.Subset.refl _)]

end

/-- What a capture takes from an instance: the properties that are set and not of an ignored
type. -/
def kept (types : TypeTable) (object : Instance) (properties : List Property) :
    List (String × Live) :=
  properties.filterMap fun property =>
    if (types.classify property.type).isIgnored then none
    else (object.get? property.name).map fun value => (property.name, value)

theorem mem_kept_iff {object : Instance} {properties : List Property} {entry : String × Live} :
    entry ∈ kept types object properties ↔ ∃ property ∈ properties,
      ¬ (types.classify property.type).isIgnored ∧ property.name = entry.1 ∧
        object.get? entry.1 = some entry.2 := by
  obtain ⟨name, value⟩ := entry
  simp only [kept, List.mem_filterMap, Option.ite_none_left_eq_some, Option.map_eq_some_iff,
    Prod.mk.injEq]
  refine exists_congr fun property => and_congr_right fun _ => and_congr_right fun _ => ?_
  constructor
  · rintro ⟨_, set, rfl, rfl⟩
    exact ⟨rfl, set⟩
  · rintro ⟨rfl, set⟩
    exact ⟨value, set, rfl, rfl⟩

theorem kept_cons_of_set {object : Instance} {property : Property} {rest : List Property}
    {value : Live} (considered : (types.classify property.type).isIgnored = false)
    (set : object.get? property.name = some value) :
    kept types object (property :: rest) = (property.name, value) :: kept types object rest := by
  simp only [kept, List.filterMap_cons, considered, set, Bool.false_eq_true, if_false,
    Option.map_some]

theorem kept_cons_of_unset {object : Instance} {property : Property} {rest : List Property}
    (unless_kept : ∀ value, (types.classify property.type).isIgnored = false →
      object.get? property.name = some value → False) :
    kept types object (property :: rest) = kept types object rest := by
  have skipped : (if (types.classify property.type).isIgnored then none
      else (object.get? property.name).map fun value => (property.name, value)) = none := by
    split
    next => rfl
    next considered =>
      cases set : object.get? property.name with
      | none => rfl
      | some value => exact (unless_kept value (by simpa using considered) set).elim
  rw [kept, List.filterMap_cons, skipped]
  rfl

/-- Capturing properties sets those that are kept, under the names of what they refer to. -/
theorem captureProperties_settles {object : Instance} {properties : List Property}
    {state final : State} {walk after : Walk} (proper : walk.Proper)
    (captured : captureProperties types heap owner object properties state walk =
      .ok (final, after)) :
    Settling types heap walk after
        ((kept types object properties).flatMap fun entry => entry.2.references) ∧
      final = ((kept types object properties).map fun entry =>
        (entry.1, entry.2.relink (after.nameOf types heap))).foldl
          (fun state setting => state.insert setting.1 setting.2) state := by
  induction properties generalizing state walk with
  | nil =>
      rw [captureProperties] at captured
      cases captured
      exact ⟨.refl proper, rfl⟩
  | cons property rest induction =>
      rw [captureProperties] at captured
      simp only at captured
      split at captured
      next value considered set =>
        obtain ⟨⟨stored, between⟩, value_captured, captured⟩ := bind_eq_ok_iff.mp captured
        obtain ⟨first, rfl⟩ := captureValue_settles value proper value_captured
        obtain ⟨second, rfl⟩ := induction first.proper captured
        rw [kept_cons_of_set considered set, List.flatMap_cons, List.map_cons, List.foldl_cons]
        refine ⟨first.trans second, ?_⟩
        rw [first.relink_eq second.names second.proper (List.Subset.refl _)]
      next unless_kept =>
        rw [kept_cons_of_unset unless_kept]
        exact induction proper captured

end Values

section Nodes

variable {types : TypeTable} {heap : Heap}

/-- A node holds what an instance holds, with references replaced by the names of their targets. -/
structure Depicts (types : TypeTable) (heap : Heap) (walk : Walk) (object : Instance)
    (managed : ManagedType) (node : Node) : Prop where
  /-- The instance is of the type. -/
  typed : types.managedOf? object.className = some managed
  /-- The node shows the type. -/
  typeName : node.typeName = managed.typeName
  /-- The properties are those of the instance. -/
  state : node.state = .ofList ((kept types object managed.properties).map fun entry =>
    (entry.1, entry.2.relink (walk.nameOf types heap)))
  /-- References are settled. -/
  settled : ∀ entry ∈ kept types object managed.properties, ∀ target ∈ entry.2.references,
    walk.Settles types heap target

variable {walk after : Walk} {object : Instance} {managed : ManagedType} {node : Node}

/-- The value of a property is that of the instance if the property is kept. -/
theorem Depicts.get_eq (depicts : Depicts types heap walk object managed node) (name : String) :
    node.state.get name =
      if name ∈ (kept types object managed.properties).map Prod.fst then
        ((object.get? name).map fun value => value.relink (walk.nameOf types heap)).getD .null
      else .null := by
  rw [depicts.state, State.get_ofList fun name =>
    ((object.get? name).map fun value => value.relink (walk.nameOf types heap)).getD .null,
    List.map_map]
  · rfl
  · intro setting member
    obtain ⟨entry, entry_mem, rfl⟩ := List.mem_map.mp member
    obtain ⟨_, _, _, _, set⟩ := mem_kept_iff.mp entry_mem
    simp only [set, Option.map_some, Option.getD_some]

theorem Depicts.get_of_kept (depicts : Depicts types heap walk object managed node)
    {entry : String × Live} (member : entry ∈ kept types object managed.properties) :
    node.state.get entry.1 = entry.2.relink (walk.nameOf types heap) := by
  obtain ⟨_, _, _, _, set⟩ := mem_kept_iff.mp member
  rw [depicts.get_eq, if_pos (List.mem_map_of_mem member), set]
  rfl

/-- Names that were given stay in what a node holds. -/
theorem Depicts.of_suffix (depicts : Depicts types heap walk object managed node)
    (names : walk.names <:+ after.names) (proper : after.Proper) :
    Depicts types heap after object managed node where
  typed := depicts.typed
  typeName := depicts.typeName
  state := by
    rw [depicts.state]
    refine congrArg State.ofList (List.map_congr_left fun entry member => ?_)
    exact congrArg (Prod.mk entry.1) (Value.relink_congr entry.2 fun target refers =>
      ((depicts.settled entry member target refers).of_suffix names proper).2.symm)
  settled entry member target refers :=
    ((depicts.settled entry member target refers).of_suffix names proper).1

/-- A captured node depicts the instance at its slot. -/
theorem captureNode_depicts {slot : Slot} {id : GlobalId} (proper : walk.Proper)
    (captured : captureNode types heap slot id walk = .ok (node, after)) :
    ∃ object managed, heap.get? slot = some object ∧ node.id = id ∧
      Depicts types heap after object managed node ∧
      Settling types heap walk after ((kept types object managed.properties).flatMap
        fun entry => entry.2.references) := by
  obtain ⟨object, found, captured⟩ := bind_eq_ok_iff.mp captured
  obtain ⟨managed, typed, captured⟩ := bind_eq_ok_iff.mp captured
  obtain ⟨⟨state, reached⟩, state_captured, captured⟩ := bind_eq_ok_iff.mp captured
  cases captured
  have stands : heap.get? slot = some object := by
    unfold instanceAt at found
    split at found <;> cases found
    assumption
  obtain ⟨settling, rfl⟩ := captureProperties_settles proper state_captured
  refine ⟨object, managed, stands, rfl, ⟨managedType_eq_ok_iff.mp typed, rfl, rfl, ?_⟩, settling⟩
  exact fun entry member target refers =>
    settling.settled target (List.mem_flatMap.mpr ⟨entry, member, refers⟩)

end Nodes

end Capture
end AuditTrail
