import AuditTrail.Proofs.Capture.Content
import AuditTrail.Proofs.Capture.Spelling
import AuditTrail.Proofs.Schema.Names

/-!
# Contents that are told by their texts

Two value objects of one content text have the same content, as long as no cycle is written and no
name or printed id in the text can be taken for anything else.  Scalars are quoted, so nothing is
asked of them.
-/

namespace AuditTrail.Capture

open Schema

section Alike

variable (types : TypeTable) (heap : Heap)

/-- Values of the same content. -/
inductive Alike : Live → Live → Prop
  /-- Both are null or refer to something that is left out. -/
  | null {value other : Live} (reads_null : readsNull types heap value)
      (other_reads_null : readsNull types heap other) : Alike value other
  /-- Both are the same scalar. -/
  | scalar {leaf twin : Scalar} (equal : leaf == twin) : Alike (.scalar leaf) (.scalar twin)
  /-- Both refer to entities of the same id. -/
  | entity {slot other : Slot} {id : GlobalId}
      (found : referentAt types heap slot = .ok (.entity id))
      (other_found : referentAt types heap other = .ok (.entity id)) :
      Alike (.ref slot) (.ref other)
  /-- Both refer to value objects of the same class, and each mapped property is set on neither of
  them or has the same content on both. -/
  | valueObject {slot other : Slot} {object twin : Instance} {managed : ManagedType}
      (found : referentAt types heap slot = .ok (.valueObject object managed))
      (other_found : referentAt types heap other = .ok (.valueObject twin managed))
      (class_eq : object.className = twin.className)
      (properties : ∀ property ∈ managed.properties,
        Option.Rel Alike (object.get? property.name) (twin.get? property.name)) :
      Alike (.ref slot) (.ref other)
  /-- Both are sequences of elements of the same content. -/
  | seq {items others : List Live} (elements : List.Forall₂ Alike items others) :
      Alike (.seq items) (.seq others)
  /-- Both are maps of keys and values of the same content. -/
  | map {entries others : List (Live × Live)}
      (keys : List.Forall₂ Alike (entries.map Prod.fst) (others.map Prod.fst))
      (values : List.Forall₂ Alike (entries.map Prod.snd) (others.map Prod.snd)) :
      Alike (.map entries) (.map others)

/-- The properties that are set, in order of declaration. -/
def settingsOf (object : Instance) (properties : List Property) : List (String × Live) :=
  properties.filterMap fun property =>
    (object.get? property.name).map fun value => (property.name, value)

/-- A value whose content a tree spells out. -/
inductive Spells : Live → Spelling → Prop
  | null {value : Live} (reads_null : readsNull types heap value) : Spells value .null
  | leaf {leaf scalar : Scalar} (canonical : leaf.canonical = scalar) :
      Spells (.scalar leaf) (.leaf scalar)
  | entity {slot : Slot} {id : GlobalId} (found : referentAt types heap slot = .ok (.entity id)) :
      Spells (.ref slot) (.entity id)
  | object {slot : Slot} {object : Instance} {managed : ManagedType} {typeName : String}
      {settings : List (String × Spelling)}
      (found : referentAt types heap slot = .ok (.valueObject object managed))
      (shown : managed.typeName = typeName)
      (names : (settingsOf object managed.properties).map Prod.fst = settings.map Prod.fst)
      (values : List.Forall₂ Spells ((settingsOf object managed.properties).map Prod.snd)
        (settings.map Prod.snd)) : Spells (.ref slot) (.object typeName settings)
  | seq {items : List Live} {trees : List Spelling} (elements : List.Forall₂ Spells items trees) :
      Spells (.seq items) (.seq trees)
  | map {entries : List (Live × Live)} {trees : List (Spelling × Spelling)}
      (keys : List.Forall₂ Spells (entries.map Prod.fst) (trees.map Prod.fst))
      (values : List.Forall₂ Spells (entries.map Prod.snd) (trees.map Prod.snd)) :
      Spells (.map entries) (.map trees)

/-- A value is written as the text of a legible tree that spells it. -/
def Spelt (ids : GlobalId → Prop) (value : Live) (text : String) : Prop :=
  ∃ tree, Spells types heap value tree ∧ tree.Legible ids ∧ text.toList = tree.write

end Alike

section Settings

variable {object twin : Instance} {properties : List Property} {name : String} {value : Live}

theorem mem_settingsOf_iff : (name, value) ∈ settingsOf object properties ↔
    (∃ property ∈ properties, property.name = name) ∧ object.get? name = some value := by
  simp only [settingsOf, List.mem_filterMap, Option.map_eq_some_iff, Prod.mk.injEq]
  constructor
  · rintro ⟨property, declared, _, set, rfl, rfl⟩
    exact ⟨⟨property, declared, rfl⟩, set⟩
  · rintro ⟨⟨property, declared, rfl⟩, set⟩
    exact ⟨property, declared, value, set, rfl, rfl⟩

end Settings

section Reading

variable {types : TypeTable} {heap : Heap} {ids : GlobalId → Prop}
  {write : Slot → Except CaptureError String} {text : String}

theorem spelt_of_itemsContent {items : List Live}
    (spelt : ∀ item ∈ items, ∀ text, valueContent write item = .ok text →
      Spelt types heap ids item text) (written : itemsContent write items = .ok text) :
    ∃ trees, List.Forall₂ (Spells types heap) items trees ∧ (∀ tree ∈ trees, tree.Legible ids) ∧
      text.toList = Spelling.writeItems trees := by
  induction items generalizing text with
  | nil =>
      cases written
      exact ⟨[], .nil, (fun _ member => nomatch member), rfl⟩
  | cons item items induction =>
      obtain ⟨first_spelt, more_spelt⟩ := List.forall_mem_cons.mp spelt
      obtain ⟨first, first_written, written⟩ := bind_eq_ok_iff.mp written
      obtain ⟨others, others_written, written⟩ := bind_eq_ok_iff.mp written
      cases written
      obtain ⟨tree, spells, legible, first_text⟩ := first_spelt first first_written
      obtain ⟨trees, more, more_legible, others_text⟩ := induction more_spelt others_written
      refine ⟨tree :: trees, .cons spells more,
        List.forall_mem_cons.mpr ⟨legible, more_legible⟩, ?_⟩
      simp [Spelling.writeItems, first_text, others_text]

theorem spelt_of_entriesContent {entries : List (Live × Live)}
    (spelt : ∀ entry ∈ entries, ∀ text, (valueContent write entry.1 = .ok text →
      Spelt types heap ids entry.1 text) ∧ (valueContent write entry.2 = .ok text →
        Spelt types heap ids entry.2 text)) (written : entriesContent write entries = .ok text) :
    ∃ trees, List.Forall₂ (Spells types heap) (entries.map Prod.fst) (trees.map Prod.fst) ∧
      List.Forall₂ (Spells types heap) (entries.map Prod.snd) (trees.map Prod.snd) ∧
        (∀ tree ∈ trees, tree.1.Legible ids ∧ tree.2.Legible ids) ∧
          text.toList = Spelling.writeEntries trees := by
  induction entries generalizing text with
  | nil =>
      cases written
      exact ⟨[], .nil, .nil, (fun _ member => nomatch member), rfl⟩
  | cons entry entries induction =>
      obtain ⟨first_spelt, more_spelt⟩ := List.forall_mem_cons.mp spelt
      obtain ⟨key, key_written, written⟩ := bind_eq_ok_iff.mp written
      obtain ⟨value, value_written, written⟩ := bind_eq_ok_iff.mp written
      obtain ⟨others, others_written, written⟩ := bind_eq_ok_iff.mp written
      cases written
      obtain ⟨tree, spells, legible, key_text⟩ := (first_spelt key).1 key_written
      obtain ⟨twin, twin_spells, twin_legible, value_text⟩ := (first_spelt value).2 value_written
      obtain ⟨trees, keys, values, more_legible, others_text⟩ := induction more_spelt others_written
      refine ⟨(tree, twin) :: trees, .cons spells keys, .cons twin_spells values,
        List.forall_mem_cons.mpr ⟨⟨legible, twin_legible⟩, more_legible⟩, ?_⟩
      simp [Spelling.writeEntries, key_text, value_text, others_text]

theorem spelt_of_propertiesContent {object : Instance} {properties : List Property}
    (spelt : ∀ property ∈ properties, ∀ value, object.get? property.name = some value →
      ∀ text, valueContent write value = .ok text → Spelt types heap ids value text)
    (written : propertiesContent write object properties = .ok text) :
    ∃ settings : List (String × Spelling),
      (settingsOf object properties).map Prod.fst = settings.map Prod.fst ∧
        List.Forall₂ (Spells types heap) ((settingsOf object properties).map Prod.snd)
          (settings.map Prod.snd) ∧
          (∀ setting ∈ settings, setting.2.Legible ids) ∧
            text.toList = Spelling.writeSettings settings := by
  induction properties generalizing text with
  | nil =>
      cases written
      exact ⟨[], rfl, .nil, (fun _ member => nomatch member), rfl⟩
  | cons property properties induction =>
      obtain ⟨first_spelt, more_spelt⟩ := List.forall_mem_cons.mp spelt
      rw [propertiesContent] at written
      cases set : object.get? property.name with
      | none =>
          rw [set] at written
          rw [settingsOf, List.filterMap_cons_none (by rw [set, Option.map_none])]
          exact induction more_spelt written
      | some value =>
          simp only [set] at written
          obtain ⟨first, first_written, written⟩ := bind_eq_ok_iff.mp written
          obtain ⟨others, others_written, written⟩ := bind_eq_ok_iff.mp written
          cases written
          obtain ⟨tree, spells, legible, first_text⟩ := first_spelt value set first first_written
          obtain ⟨settings, names, values, more_legible, others_text⟩ :=
            induction more_spelt others_written
          rw [settingsOf, List.filterMap_cons_some (by rw [set, Option.map_some])]
          refine ⟨(property.name, tree) :: settings, congrArg _ names, .cons spells values,
            List.forall_mem_cons.mpr ⟨legible, more_legible⟩, ?_⟩
          simp [Spelling.writeSettings, first_text, others_text]

/-- What is written of a value is spelt if what is written of its references is. -/
theorem spelt_of_valueContent (value : Live)
    (spelt : ∀ target ∈ value.references, ∀ text, write target = .ok text →
      Spelt types heap ids (.ref target) text) (written : valueContent write value = .ok text) :
    Spelt types heap ids value text := by
  induction value using Value.induction generalizing text with
  | null =>
      cases written
      exact ⟨.null, .null rfl, .null, rfl⟩
  | scalar leaf =>
      cases written
      refine ⟨.leaf leaf.canonical, .leaf rfl, .leaf ?_, ?_⟩
      · exact Scalar.beq_iff.mp leaf.canonical_beq
      · rw [Spelling.write, Scalar.content_canonical]
  | ref target => exact spelt target (List.mem_singleton_self target) text written
  | seq items induction =>
      obtain ⟨inner, items_written, written⟩ := bind_eq_ok_iff.mp written
      cases written
      obtain ⟨trees, elements, legible, inner_text⟩ := spelt_of_itemsContent
        (fun item member _ => induction item member fun target refers =>
          spelt target (Value.mem_referencesOfItems_iff.mpr ⟨item, member, refers⟩)) items_written
      exact ⟨.seq trees, .seq elements, .seq legible, by simp [Spelling.write, inner_text]⟩
  | map entries induction =>
      obtain ⟨inner, entries_written, written⟩ := bind_eq_ok_iff.mp written
      cases written
      obtain ⟨trees, keys, values, legible, inner_text⟩ := spelt_of_entriesContent
        (fun entry member _ => ⟨(induction entry member).1 fun target refers => spelt target
            (Value.mem_referencesOfEntries_iff.mpr ⟨entry, member, .inl refers⟩),
          (induction entry member).2 fun target refers => spelt target
            (Value.mem_referencesOfEntries_iff.mpr ⟨entry, member, .inr refers⟩)⟩) entries_written
      exact ⟨.map trees, .map keys values, .map (fun tree member => (legible tree member).1)
        fun tree member => (legible tree member).2, by simp [Spelling.write, inner_text]⟩

end Reading

section Existence

variable (types : TypeTable) (heap : Heap)

/-- The slots that the contents of two slots come to. -/
def Within (slot other target : Slot) : Prop :=
  Relation.ReflTransGen (Follows types heap) slot target ∨
    Relation.ReflTransGen (Follows types heap) other target

/-- No name or id that is written of such slots can be taken for anything else. -/
structure Legible (among : Slot → Prop) : Prop where
  /-- Types and properties are told by their names. -/
  names : ∀ slot object managed, among slot →
    referentAt types heap slot = .ok (.valueObject object managed) →
      LegibleType managed.typeName ∧
        ∀ property ∈ managed.properties, LegibleProperty property.name
  /-- Entities are told by their printed ids. -/
  ids : ∀ slot other id twin, among slot → among other →
    referentAt types heap slot = .ok (.entity id) →
      referentAt types heap other = .ok (.entity twin) → IdsApart id twin

/-- The ids of entities among the given slots. -/
def IdsOf (among : Slot → Prop) (id : GlobalId) : Prop :=
  ∃ slot, among slot ∧ referentAt types heap slot = .ok (.entity id)

/-- The value objects on a path contain a slot, and there is room for all others. -/
structure Descent (room : Nat) (path : List Slot) (slot : Slot) : Prop where
  /-- No value object is on the path twice. -/
  distinct : path.Nodup
  /-- Only instances are on the path. -/
  inside : ∀ ancestor ∈ path, ancestor < heap.size
  /-- There is room for all other instances. -/
  enough : heap.size ≤ room + path.length
  /-- The path leads to the slot. -/
  above : ∀ ancestor ∈ path, Relation.TransGen (Follows types heap) ancestor slot

variable {types heap} {among : Slot → Prop} {room : Nat} {path : List Slot} {slot target : Slot}
  {object : Instance} {managed : ManagedType} {text : String}

theorem Descent.start (slot : Slot) : Descent types heap heap.size [] slot where
  distinct := List.nodup_nil
  inside _ member := nomatch member
  enough := Nat.le_add_right _ _
  above _ member := nomatch member

/-- A value object that does not contain itself is not on its own path. -/
theorem Descent.notMem (descent : Descent types heap room path slot)
    (acyclic : ¬ Relation.TransGen (Follows types heap) slot slot) : slot ∉ path :=
  fun on_path => acyclic (descent.above slot on_path)

/-- There is room for a value object that is not on the path. -/
theorem Descent.exists_room (descent : Descent types heap room path slot) (off_path : slot ∉ path)
    (found : referentAt types heap slot = .ok (.valueObject object managed)) :
    ∃ less, room = less + 1 := by
  have longer := length_le_size (List.nodup_cons.mpr ⟨off_path, descent.distinct⟩)
    (List.forall_mem_cons.mpr ⟨lt_size_of_valueObject found, descent.inside⟩)
  rw [List.length_cons] at longer
  have enough := descent.enough
  exact ⟨room - 1, by omega⟩

/-- A path goes on with what follows. -/
theorem Descent.cons (descent : Descent types heap (room + 1) path slot) (off_path : slot ∉ path)
    (found : referentAt types heap slot = .ok (.valueObject object managed))
    (follows : Follows types heap slot target) :
    Descent types heap room (slot :: path) target where
  distinct := List.nodup_cons.mpr ⟨off_path, descent.distinct⟩
  inside := List.forall_mem_cons.mpr ⟨lt_size_of_valueObject found, descent.inside⟩
  enough := by
    have enough := descent.enough
    rw [List.length_cons]
    omega
  above := List.forall_mem_cons.mpr
    ⟨.single follows, fun ancestor member => (descent.above ancestor member).tail follows⟩

/-- What is written of a reference that leads to no value object is spelt. -/
theorem spelt_of_plain (here : among slot)
    (plain : ∀ object managed, referentAt types heap slot ≠ .ok (.valueObject object managed))
    (written : refContent types heap room path slot = .ok text) :
    Spelt types heap (IdsOf types heap among) (.ref slot) text := by
  cases found : referentAt types heap slot with
  | error =>
      rw [refContent_of_error found] at written
      cases written
  | ok referent =>
      cases referent with
      | skipped =>
          rw [refContent_of_skipped found] at written
          cases written
          exact ⟨.null, .null (readsNull_iff.mpr (.inr ⟨slot, rfl, found⟩)), .null, rfl⟩
      | entity id =>
          rw [refContent_of_entity found] at written
          cases written
          refine ⟨.entity id, .entity found, .entity ⟨slot, here, found⟩, ?_⟩
          simp [Spelling.write]
      | valueObject object managed => exact absurd found (plain object managed)

/-- What is written of a reference is spelt, where no value object contains itself. -/
theorem spelt_of_refContent (legible : Legible types heap among)
    (closed : ∀ slot target, among slot → Follows types heap slot target → among target)
    (acyclic : ∀ slot, among slot → ¬ Relation.TransGen (Follows types heap) slot slot)
    (descent : Descent types heap room path slot) (here : among slot)
    (written : refContent types heap room path slot = .ok text) :
    Spelt types heap (IdsOf types heap among) (.ref slot) text := by
  induction room generalizing path slot text with
  | zero =>
      refine spelt_of_plain here (fun object managed found => ?_) written
      obtain ⟨_, impossible⟩ := descent.exists_room (descent.notMem (acyclic slot here)) found
      cases impossible
  | succ room induction =>
      by_cases plain : ∀ object managed,
        referentAt types heap slot ≠ .ok (.valueObject object managed)
      · exact spelt_of_plain here plain written
      simp only [ne_eq, not_forall, not_not] at plain
      obtain ⟨object, managed, found⟩ := plain
      -- No value object is on its own path, so none is written as a cycle.
      have off_path := descent.notMem (acyclic slot here)
      rw [refContent_of_notMem found off_path, map_eq_ok_iff] at written
      obtain ⟨inner, inner_written, rfl⟩ := written
      obtain ⟨settings, names, values, values_legible, inner_text⟩ := spelt_of_propertiesContent
        (fun property declared value set text => spelt_of_valueContent value
          fun target refers text target_written =>
            have follows : Follows types heap slot target :=
              ⟨object, managed, found, property, declared, value, set, refers⟩
            induction (descent.cons off_path found follows) (closed slot target here follows)
              target_written) inner_written
      obtain ⟨type_legible, properties_legible⟩ := legible.names slot object managed here found
      refine ⟨.object managed.typeName settings, .object found rfl names values,
        .object type_legible (fun setting member => ?_) values_legible, ?_⟩
      · have named : setting.1 ∈ settings.map Prod.fst := List.mem_map_of_mem member
        rw [← names] at named
        obtain ⟨⟨name, value⟩, set, same⟩ := List.mem_map.mp named
        obtain ⟨⟨property, declared, rfl⟩, -⟩ := mem_settingsOf_iff.mp set
        exact same ▸ properties_legible property declared
      · simp [Spelling.write, inner_text]

end Existence

section Uniqueness

variable {types : TypeTable} {heap : Heap} {ids : GlobalId → Prop} {value other : Live}
  {tree : Spelling}

/-- Lists that are related to one list are related to each other. -/
theorem forall₂_of_common {α β : Type} {r : α → β → Prop} {q : α → α → Prop} {items others : List α}
    {trees : List β} (items_related : List.Forall₂ r items trees)
    (others_related : List.Forall₂ r others trees)
    (common : ∀ tree ∈ trees, ∀ item other, r item tree → r other tree → q item other) :
    List.Forall₂ q items others := by
  induction items_related generalizing others with
  | nil =>
      cases others_related
      exact .nil
  | cons related more induction =>
      cases others_related with
      | cons other_related others_related =>
          obtain ⟨first, later⟩ := List.forall_mem_cons.mp common
          exact .cons (first _ _ related other_related) (induction others_related later)

/-- What is set under one of the names is set under it on the other side too. -/
theorem exists_of_setting {r : Live → Live → Prop} {left right : List (String × Live)}
    (names : left.map Prod.fst = right.map Prod.fst)
    (values : List.Forall₂ r (left.map Prod.snd) (right.map Prod.snd)) {name : String}
    {value : Live} (member : (name, value) ∈ left) :
    ∃ twin, (name, twin) ∈ right ∧ r value twin := by
  induction left generalizing right with
  | nil => exact nomatch member
  | cons setting left induction =>
      cases right with
      | nil => cases names
      | cons twin right =>
          obtain ⟨twin_name, twin_value⟩ := twin
          obtain ⟨same_name, more_names⟩ := List.cons.inj names
          cases values with
          | cons related more =>
              rcases List.mem_cons.mp member with rfl | later
              · obtain rfl : name = twin_name := same_name
                exact ⟨twin_value, List.mem_cons_self, related⟩
              · obtain ⟨found, set, related⟩ := induction more_names more later
                exact ⟨found, List.mem_cons_of_mem _ set, related⟩

theorem optionRel_of_settings {r : Live → Live → Prop} {object twin : Instance}
    {properties : List Property}
    (names : (settingsOf object properties).map Prod.fst =
      (settingsOf twin properties).map Prod.fst)
    (values : List.Forall₂ r ((settingsOf object properties).map Prod.snd)
      ((settingsOf twin properties).map Prod.snd)) :
    ∀ property ∈ properties,
      Option.Rel r (object.get? property.name) (twin.get? property.name) := by
  intro property declared
  cases set : object.get? property.name with
  | some value =>
      obtain ⟨other, other_set, related⟩ := exists_of_setting names values
        (mem_settingsOf_iff.mpr ⟨⟨property, declared, rfl⟩, set⟩)
      rw [(mem_settingsOf_iff.mp other_set).2]
      exact .some related
  | none =>
      cases other_set : twin.get? property.name with
      | none => exact .none
      | some other =>
          have named : property.name ∈ (settingsOf twin properties).map Prod.fst :=
            List.mem_map_of_mem (f := Prod.fst)
              (mem_settingsOf_iff.mpr ⟨⟨property, declared, rfl⟩, other_set⟩)
          rw [← names] at named
          obtain ⟨⟨_, value⟩, also_set, rfl⟩ := List.mem_map.mp named
          rw [(mem_settingsOf_iff.mp also_set).2] at set
          cases set

theorem mem_managed_of_valueObject {slot : Slot} {object : Instance} {managed : ManagedType}
    (found : referentAt types heap slot = .ok (.valueObject object managed)) :
    managed ∈ types.managed ∧ managed.className = object.className := by
  obtain ⟨-, -, typed, -⟩ := referentAt_eq_valueObject_iff.mp found
  have named := List.find?_some (p := fun managed : ManagedType =>
    managed.className == object.className) typed
  exact ⟨List.mem_of_find?_eq_some typed, beq_iff_eq.mp named⟩

/-- Value objects that are spelt by one tree have the same content, if what is set on them has. -/
theorem alike_of_object (distinct : types.NamesDistinct) {typeName : String}
    {settings : List (String × Spelling)}
    (alike : ∀ setting ∈ settings, ∀ value other, Spells types heap value setting.2 →
      Spells types heap other setting.2 → Alike types heap value other)
    (spells : Spells types heap value (.object typeName settings))
    (other_spells : Spells types heap other (.object typeName settings)) :
    Alike types heap value other := by
  cases spells with
  | @object slot object managed _ _ found shown names values =>
      cases other_spells with
      | @object other twin type _ _ other_found other_shown other_names other_values =>
          obtain ⟨member, class_eq⟩ := mem_managed_of_valueObject found
          obtain ⟨other_member, other_class_eq⟩ := mem_managed_of_valueObject other_found
          -- No two managed types show one name.
          obtain rfl : managed = type := by
            have named := distinct.managedByName? member
            rw [shown, ← other_shown, distinct.managedByName? other_member] at named
            exact (Option.some.inj named).symm
          have properties := optionRel_of_settings (names.trans other_names.symm)
            (forall₂_of_common values other_values fun tree known value other => by
              obtain ⟨setting, setting_mem, rfl⟩ := List.mem_map.mp known
              exact alike setting setting_mem value other)
          exact .valueObject found other_found (class_eq.symm.trans other_class_eq) properties

/-- Values that are spelt by one tree have the same content. -/
theorem alike_of_spells (distinct : types.NamesDistinct) (legible : tree.Legible ids)
    (spells : Spells types heap value tree) (other_spells : Spells types heap other tree) :
    Alike types heap value other := by
  induction legible generalizing value other with
  | null =>
      cases spells with
      | null reads_null =>
          cases other_spells with
          | null other_reads_null => exact .null reads_null other_reads_null
  | leaf =>
      cases spells with
      | leaf canonical =>
          cases other_spells with
          | leaf other_canonical =>
              exact .scalar (Scalar.beq_iff.mpr (canonical.trans other_canonical.symm))
  | entity =>
      cases spells with
      | entity found =>
          cases other_spells with
          | entity other_found => exact .entity found other_found
  | object _ _ _ alike =>
      exact alike_of_object distinct (fun setting member _ _ => alike setting member) spells
        other_spells
  | seq _ alike =>
      cases spells with
      | seq elements =>
          cases other_spells with
          | seq other_elements =>
              exact .seq (forall₂_of_common elements other_elements fun tree member _ _ =>
                alike tree member)
  | map _ _ keys_alike values_alike =>
      cases spells with
      | map keys values =>
          cases other_spells with
          | map other_keys other_values =>
              refine .map (forall₂_of_common keys other_keys fun tree known _ _ => ?_)
                (forall₂_of_common values other_values fun tree known _ _ => ?_)
              · obtain ⟨entry, member, rfl⟩ := List.mem_map.mp known
                exact keys_alike entry member
              · obtain ⟨entry, member, rfl⟩ := List.mem_map.mp known
                exact values_alike entry member

end Uniqueness

section Inversion

variable {types : TypeTable} {heap : Heap} {slot other : Slot}

/-- References to entities have the same content if the ids are the same. -/
theorem alike_entities_iff {id twin : GlobalId}
    (found : referentAt types heap slot = .ok (.entity id))
    (other_found : referentAt types heap other = .ok (.entity twin)) :
    Alike types heap (.ref slot) (.ref other) ↔ id = twin := by
  constructor
  · intro alike
    cases alike with
    | null reads_null => simp [readsNull, found] at reads_null
    | entity also also_other =>
        rw [found] at also
        rw [other_found] at also_other
        cases also
        cases also_other
        rfl
    | valueObject also =>
        rw [found] at also
        cases also
  · rintro rfl
    exact .entity found other_found

/-- References to value objects have the same content if class and mapped properties are the
same. -/
theorem alike_valueObjects_iff {object twin : Instance} {managed type : ManagedType}
    (found : referentAt types heap slot = .ok (.valueObject object managed))
    (other_found : referentAt types heap other = .ok (.valueObject twin type)) :
    Alike types heap (.ref slot) (.ref other) ↔
      managed = type ∧ object.className = twin.className ∧ ∀ property ∈ managed.properties,
        Option.Rel (Alike types heap) (object.get? property.name) (twin.get? property.name) := by
  constructor
  · intro alike
    cases alike with
    | null reads_null => simp [readsNull, found] at reads_null
    | entity also =>
        rw [found] at also
        cases also
    | valueObject also also_other class_eq properties =>
        rw [found] at also
        rw [other_found] at also_other
        cases also
        cases also_other
        exact ⟨rfl, class_eq, properties⟩
  · rintro ⟨rfl, class_eq, properties⟩
    exact .valueObject found other_found class_eq properties

end Inversion

section Checks

variable {types : TypeTable} {heap : Heap} {definitions : List Definition} {among : Slot → Prop}

/-- Where value objects refer to later instances only, none contains itself. -/
theorem acyclic_of_upward
    (upward : ∀ slot < heap.size, ∀ object ∈ heap.get? slot,
      ∀ managed ∈ types.managedOf? object.className, ¬ managed.isEntity →
        ∀ property ∈ managed.properties, ∀ value ∈ object.get? property.name,
          ∀ target ∈ value.references, slot < target) (slot : Slot) :
    ¬ Relation.TransGen (Follows types heap) slot slot := by
  have later (slot target : Slot) (follows : Follows types heap slot target) : slot < target := by
    obtain ⟨object, managed, found, property, declared, value, set, refers⟩ := follows
    obtain ⟨stands, -, typed, plain⟩ := referentAt_eq_valueObject_iff.mp found
    exact upward slot (lt_size_of_valueObject found) object stands managed typed plain property
      declared value set target refers
  intro cycle
  have ascends : Relation.TransGen (· < ·) slot slot := Relation.TransGen.mono later _ _ cycle
  rw [Relation.transGen_eq_self] at ascends
  exact lt_irrefl slot ascends

/-- Contents are legible where all names of the registry and all ids of the heap are. -/
theorem legible_of_all (accepted : TypeTable.ofDefinitions definitions = .ok types)
    (names : ∀ managed ∈ types.managed, LegibleType managed.typeName ∧
      ∀ property ∈ managed.properties, LegibleProperty property.name) {ids : List GlobalId}
    (known : ∀ slot < heap.size, ∀ id ∈ (rootId types heap slot).toOption,
      id.isValueObject ∨ id ∈ ids) (apart : ∀ id ∈ ids, ∀ twin ∈ ids, IdsApart id twin) :
    Legible types heap among where
  names _ _ managed _ found := names managed (mem_managed_of_valueObject found).1
  ids slot other id twin _ _ found other_found := by
    have listed {slot : Slot} {id : GlobalId}
        (found : referentAt types heap slot = .ok (.entity id)) : id ∈ ids := by
      obtain ⟨object, -, stands, -⟩ := referentAt_eq_entity_iff.mp found
      have named := mem_toOption ((rootId_eq_ok_iff_referentAt accepted).mpr (.inl found))
      have inside : slot < heap.size := (List.getElem?_eq_some_iff.mp stands).1
      exact (known slot inside id named).resolve_left (not_isValueObject_of_entity found)
    exact apart id (listed found) twin (listed other_found)

end Checks

section Contents

variable {types : TypeTable} {heap : Heap} {definitions : List Definition} {slot other : Slot}
  {text other_text : String}

theorem Within.closed (target next : Slot) (within : Within types heap slot other target)
    (follows : Follows types heap target next) : Within types heap slot other next :=
  within.imp (·.tail follows) (·.tail follows)

/-- References whose content is the same text have the same content. -/
theorem alike_of_content (accepted : TypeTable.ofDefinitions definitions = .ok types)
    (acyclic : ∀ target, Within types heap slot other target →
      ¬ Relation.TransGen (Follows types heap) target target)
    (legible : Legible types heap (Within types heap slot other))
    (written : content types heap (.ref slot) = .ok text)
    (other_written : content types heap (.ref other) = .ok text) :
    Alike types heap (.ref slot) (.ref other) := by
  obtain ⟨tree, spells, tree_legible, tree_text⟩ :=
    spelt_of_refContent legible Within.closed acyclic (.start slot) (.inl .refl) written
  obtain ⟨twin, twin_spells, twin_legible, twin_text⟩ :=
    spelt_of_refContent legible Within.closed acyclic (.start other) (.inr .refl) other_written
  have apart : ∀ id, IdsOf types heap (Within types heap slot other) id →
      ∀ other_id, IdsOf types heap (Within types heap slot other) other_id →
        IdsApart id other_id :=
    fun id ⟨slot, here, found⟩ twin ⟨other, there, other_found⟩ =>
      legible.ids slot other id twin here there found other_found
  obtain rfl := Spelling.write_inj apart tree_legible twin_legible (tree_text.symm.trans twin_text)
  exact alike_of_spells (TypeTable.namesDistinct_ofDefinitions accepted) tree_legible spells
    twin_spells

/-- Where no cycle is written and no name or id that is written can be taken for anything else,
value objects of one content text have the same content.  Elements of a set that are given one name
have the same content, or they have different texts whose digests begin with the same digits. -/
theorem alike_of_contentName (accepted : TypeTable.ofDefinitions definitions = .ok types)
    (acyclic : ∀ target, Within types heap slot other target →
      ¬ Relation.TransGen (Follows types heap) target target)
    (legible : Legible types heap (Within types heap slot other))
    (written : content types heap (.ref slot) = .ok text)
    (other_written : content types heap (.ref other) = .ok other_text) :
    (text = other_text → Alike types heap (.ref slot) (.ref other)) ∧
      (contentName types heap (.ref slot) = contentName types heap (.ref other) →
        Alike types heap (.ref slot) (.ref other) ∨
          text ≠ other_text ∧ (Blake3.hexDigest text).toList.take contentNameLength =
            (Blake3.hexDigest other_text).toList.take contentNameLength) := by
  have told : text = other_text → Alike types heap (.ref slot) (.ref other) := by
    rintro rfl
    exact alike_of_content accepted acyclic legible written other_written
  refine ⟨told, fun names => ?_⟩
  by_cases same : text = other_text
  · exact .inl (told same)
  · rw [contentName, contentName, written, other_written] at names
    exact .inr ⟨same, String.ofList_injective (Except.ok.inj names)⟩

/-- Two tags with the same label, the same owner and parts of the same size have one content text,
and the same content. -/
theorem alike_of_contentName_tags :
    let user : Definition := .entity ⟨"User", none, [⟨"id", .named "int", true, false⟩], []⟩ none
    let tag : Definition :=
      .valueObject ⟨"Tag", none, [⟨"label", .named "string", false, false⟩,
        ⟨"owners", .list (.named "User"), false, false⟩, ⟨"part", .named "Part", false, false⟩], []⟩
    let part : Definition :=
      .valueObject ⟨"Part", none, [⟨"size", .named "double", false, false⟩], []⟩
    let heap : Heap :=
      ⟨[.ofList "Tag" [("label", .scalar (.text "a;")), ("owners", .seq [.ref 4, .ref 5]),
          ("part", .ref 2)],
        .ofList "Tag" [("label", .scalar (.text "a;")), ("owners", .seq [.ref 4, .ref 5]),
          ("part", .ref 3)],
        .ofList "Part" [("size", .scalar (.float ⟨0x3fe0000000000000⟩))],
        .ofList "Part" [("size", .scalar (.float ⟨0x3fe0000000000000⟩))],
        .ofList "User" [("id", .scalar (.int 1))], .ofList "User" [("id", .scalar (.text "b"))]]⟩
    let text :=
      "Tag(label=Text(\"a;\");owners=[@User/1,@User/b,];part=Part(size=Float(0.5););)"
    ∃ types, TypeTable.ofDefinitions [user, tag, part] = .ok types ∧
      (∀ slot, ¬ Relation.TransGen (Follows types heap) slot slot) ∧
        Legible types heap (Within types heap 0 1) ∧
          content types heap (.ref 0) = .ok text ∧ content types heap (.ref 1) = .ok text ∧
            Alike types heap (.ref 0) (.ref 1) := by
  intro user tag part heap text
  obtain ⟨types, accepted⟩ : ∃ types,
      TypeTable.ofDefinitions [user, tag, part] = .ok types := ⟨_, rfl⟩
  have usual : ∀ types ∈ (TypeTable.ofDefinitions [user, tag, part]).toOption,
      (∀ slot < heap.size, ∀ object ∈ heap.get? slot,
        ∀ managed ∈ types.managedOf? object.className, ¬ managed.isEntity →
          ∀ property ∈ managed.properties, ∀ value ∈ object.get? property.name,
            ∀ target ∈ value.references, slot < target) ∧
      (∀ managed ∈ types.managed, LegibleType managed.typeName ∧
        ∀ property ∈ managed.properties, LegibleProperty property.name) ∧
      (∀ slot < heap.size, ∀ id ∈ (rootId types heap slot).toOption, id.isValueObject ∨
        id ∈ [.entity "User" (.int 1), .entity "User" (.text "b")]) ∧
      text ∈ (content types heap (.ref 0)).toOption ∧
        text ∈ (content types heap (.ref 1)).toOption := by decide +kernel
  obtain ⟨upward, names, known, written, other_written⟩ := usual types (mem_toOption accepted)
  rw [mem_toOption_iff] at written other_written
  have acyclic := acyclic_of_upward upward
  have legible : Legible types heap (Within types heap 0 1) :=
    legible_of_all accepted names known (by decide +kernel)
  exact ⟨types, accepted, acyclic, legible, written, other_written,
    (alike_of_contentName accepted (fun target _ => acyclic target) legible written
      other_written).1 rfl⟩

/-- Ids are printed without quotes, so a tag that is owned by user `1` is written like a tag that is
owned by the user with the text `1` as its id: they have different contents and one name, and only
one of them is captured. -/
theorem not_alike_of_content :
    let user : Definition :=
      .entity ⟨"User", none, [⟨"id", .named "int", true, false⟩,
        ⟨"tags", .set (.named "Tag"), false, false⟩], []⟩ none
    let tag : Definition :=
      .valueObject ⟨"Tag", none, [⟨"owner", .named "User", false, false⟩], []⟩
    let heap : Heap :=
      ⟨[.ofList "Tag" [("owner", .ref 2)], .ofList "Tag" [("owner", .ref 3)],
        .ofList "User" [("id", .scalar (.int 1)), ("tags", .seq [.ref 0, .ref 1])],
        .ofList "User" [("id", .scalar (.text "1"))]]⟩
    let text := "Tag(owner=@User/1;)"
    ∃ types graph, TypeTable.ofDefinitions [user, tag] = .ok types ∧
      (∀ slot, ¬ Relation.TransGen (Follows types heap) slot slot) ∧
        content types heap (.ref 0) = .ok text ∧ content types heap (.ref 1) = .ok text ∧
          ¬ Alike types heap (.ref 0) (.ref 1) ∧
            capture types heap [2] = .ok graph ∧ graph.size = 3 := by
  intro user tag heap text
  obtain ⟨types, accepted⟩ : ∃ types,
      TypeTable.ofDefinitions [user, tag] = .ok types := ⟨_, rfl⟩
  have usual : ∀ types ∈ (TypeTable.ofDefinitions [user, tag]).toOption,
      (∀ slot < heap.size, ∀ object ∈ heap.get? slot,
        ∀ managed ∈ types.managedOf? object.className, ¬ managed.isEntity →
          ∀ property ∈ managed.properties, ∀ value ∈ object.get? property.name,
            ∀ target ∈ value.references, slot < target) ∧
      text ∈ (content types heap (.ref 0)).toOption ∧
      text ∈ (content types heap (.ref 1)).toOption ∧
      ¬ types.isIgnored "Tag" ∧
      (∃ managed ∈ types.managedOf? "Tag", ¬ managed.isEntity ∧
        "owner" ∈ managed.properties.map Property.name) ∧
      .entity "User" (.int 1) ∈ (rootId types heap 2).toOption ∧
      .entity "User" (.text "1") ∈ (rootId types heap 3).toOption ∧
      ∃ graph ∈ (capture types heap [2]).toOption, graph.size = 3 := by decide +kernel
  obtain ⟨upward, written, other_written, heeded, ⟨managed, typed, plain, declared⟩, owner,
    other_owner, graph, captured, three⟩ := usual types (mem_toOption accepted)
  rw [mem_toOption_iff] at written other_written owner other_owner captured
  refine ⟨types, graph, accepted, acyclic_of_upward upward, written, other_written, fun alike => ?_,
    captured, three⟩
  have tag_found {slot owner : Slot}
      (stands : heap.get? slot = some (.ofList "Tag" [("owner", .ref owner)])) :=
    referentAt_eq_valueObject_iff.mpr ⟨stands, heeded, typed, plain⟩
  have owner_found {slot : Slot} {localId : LocalId}
      (owner : rootId types heap slot = .ok (.entity "User" localId)) :
      referentAt types heap slot = .ok (.entity (.entity "User" localId)) := by
    rcases (rootId_eq_ok_iff_referentAt accepted).mp owner with found | ⟨_, _, -, impossible⟩
    · exact found
    · cases impossible
  obtain ⟨property, member, named⟩ := List.mem_map.mp declared
  have owners := ((alike_valueObjects_iff (tag_found rfl) (tag_found rfl)).mp alike).2.2 property
    member
  rw [named] at owners
  cases owners with
  | some owners =>
      have same := (alike_entities_iff (owner_found owner) (owner_found other_owner)).mp owners
      cases same

end Contents

end AuditTrail.Capture
