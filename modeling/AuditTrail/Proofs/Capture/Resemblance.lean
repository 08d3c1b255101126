import AuditTrail.Proofs.Capture.Picture

/-!
# Heaps that resemble each other

A heap resembles another one if the same instances stand in it, perhaps at other slots, as far as
captures look at them: a property of an ignored type counts only where the content of its value
object is written out.  Whatever is captured from a heap is captured from all that resemble it.
-/

namespace AuditTrail

open Schema

/-- The value with its references led to other slots. -/
def Value.move (place : Slot → Slot) (value : Live) : Live :=
  value.relink fun slot => some (place slot)

namespace Capture

/-- The walk with its objects at other slots. -/
def Walk.move (place : Slot → Slot) (walk : Walk) : Walk where
  pending := walk.pending.map fun entry => (place entry.1, entry.2)
  names := walk.names.map fun entry => (place entry.1, entry.2)

/-- In the given properties an instance holds what another one holds, with references led to other
slots. -/
def HoldsMoved (place : Slot → Slot) (object twin : Instance) (properties : List Property) : Prop :=
  ∀ property ∈ properties,
    twin.get? property.name = (object.get? property.name).map (Value.move place)

/-- The properties that a capture looks at. -/
def heeded (types : TypeTable) (properties : List Property) : List Property :=
  properties.filter fun property => !(types.classify property.type).isIgnored

/-- Captures from the roots find in another heap what they find in this one. -/
structure Resembles (types : TypeTable) (place : Slot → Slot) (roots : List Slot)
    (heap other : Heap) : Prop where
  /-- No two instances come to stand at one slot. -/
  injective : Function.Injective place
  /-- Every instance has a twin of the same class that holds the same in what captures look at. -/
  twin : ∀ slot object, heap.get? slot = some object → ∃ twin, other.get? (place slot) = some twin ∧
    twin.className = object.className ∧
      ∀ managed, types.managedOf? object.className = some managed →
        HoldsMoved place object twin (heeded types managed.properties)
  /-- The twin of a value object whose content is written holds the same in all properties. -/
  written : ∀ root ∈ roots, ∀ slot object managed twin, Written types heap root slot →
    referentAt types heap slot = .ok (.valueObject object managed) →
      other.get? (place slot) = some twin → HoldsMoved place object twin managed.properties

section Values

variable {types : TypeTable} {heap other : Heap} {place : Slot → Slot} {roots : List Slot}
  {definitions : List Definition} {walk after : Walk} {slot : Slot} {object : Instance}
  {managed : ManagedType} {id owner : GlobalId} {path text : String}

theorem mem_heeded {properties : List Property} {property : Property} :
    property ∈ heeded types properties ↔
      property ∈ properties ∧ ¬ (types.classify property.type).isIgnored := by
  rw [heeded, List.mem_filter, Bool.not_eq_true']
  exact and_congr_right fun _ => Bool.eq_false_iff

theorem referentAt_eq_skipped_iff :
    referentAt types heap slot = .ok .skipped ↔
      ∃ object, heap.get? slot = some object ∧ types.isIgnored object.className := by
  rw [referentAt, bind_eq_ok_iff]
  simp only [instanceAt_eq_ok_iff]
  refine exists_congr fun object => and_congr_right fun _ => ?_
  by_cases ignored : types.isIgnored object.className
  · simp [ignored]
  · rw [if_neg ignored, bind_eq_ok_iff]
    refine iff_of_false ?_ ignored
    rintro ⟨managed, -, found⟩
    split at found
    · obtain ⟨id, -, found⟩ := bind_eq_ok_iff.mp found
      cases found
    · cases found

theorem Resembles.skipped (resembles : Resembles types place roots heap other)
    (found : referentAt types heap slot = .ok .skipped) :
    referentAt types other (place slot) = .ok .skipped := by
  obtain ⟨object, stands, ignored⟩ := referentAt_eq_skipped_iff.mp found
  obtain ⟨twin, twin_stands, same_class, -⟩ := resembles.twin slot object stands
  exact referentAt_eq_skipped_iff.mpr ⟨twin, twin_stands, same_class ▸ ignored⟩

/-- An entity and its twin have the same identity, since that is a property captures look at. -/
theorem Resembles.entity (accepted : TypeTable.ofDefinitions definitions = .ok types)
    (resembles : Resembles types place roots heap other)
    (found : referentAt types heap slot = .ok (.entity id)) :
    referentAt types other (place slot) = .ok (.entity id) := by
  obtain ⟨object, managed, stands, notIgnored, typed, is_entity, identified⟩ :=
    referentAt_eq_entity_iff.mp found
  obtain ⟨twin, twin_stands, same_class, holds⟩ := resembles.twin slot object stands
  obtain ⟨name, leaf, localId, identity, set, read, rfl⟩ := entityId_eq_ok_iff.mp identified
  obtain ⟨property, declared, rfl, looked_at⟩ := TypeTable.identity_of_ofDefinitions accepted
    (List.mem_of_find?_eq_some typed) identity
  have twin_set : twin.get? property.name = some (.scalar leaf) := by
    rw [holds managed typed property (mem_heeded.mpr ⟨declared, looked_at⟩), set]
    simp [Value.move, Value.relink]
  apply referentAt_eq_entity_iff.mpr
  refine ⟨twin, managed, twin_stands, same_class ▸ notIgnored, same_class ▸ typed, is_entity, ?_⟩
  exact entityId_eq_ok_iff.mpr ⟨property.name, leaf, localId, identity, twin_set, read, rfl⟩

theorem Resembles.valueObject (resembles : Resembles types place roots heap other)
    (found : referentAt types heap slot = .ok (.valueObject object managed)) :
    ∃ twin, other.get? (place slot) = some twin ∧
      referentAt types other (place slot) = .ok (.valueObject twin managed) := by
  obtain ⟨stands, notIgnored, typed, plain⟩ := referentAt_eq_valueObject_iff.mp found
  obtain ⟨twin, twin_stands, same_class, -⟩ := resembles.twin slot object stands
  refine ⟨twin, twin_stands, referentAt_eq_valueObject_iff.mpr ⟨twin_stands, ?_, ?_, plain⟩⟩
  · exact same_class ▸ notIgnored
  · exact same_class ▸ typed

section Contents

variable {write written : Slot → Except CaptureError String}

mutual

/-- A value is written out only if everything it refers to is. -/
theorem exists_of_valueContent (value : Live) {text : String}
    (written : valueContent write value = .ok text) :
    ∀ target ∈ value.references, ∃ text, write target = .ok text := by
  cases value with
  | null | scalar => simp [Value.references]
  | ref slot =>
      rw [valueContent] at written
      rw [Value.references]
      intro target refers
      rw [List.mem_singleton.mp refers]
      exact ⟨text, written⟩
  | seq items =>
      rw [valueContent] at written
      obtain ⟨inside, items_written, -⟩ := bind_eq_ok_iff.mp written
      rw [Value.references]
      exact exists_of_itemsContent items items_written
  | map entries =>
      rw [valueContent] at written
      obtain ⟨inside, entries_written, -⟩ := bind_eq_ok_iff.mp written
      rw [Value.references]
      exact exists_of_entriesContent entries entries_written

theorem exists_of_itemsContent (items : List Live) {text : String}
    (written : itemsContent write items = .ok text) :
    ∀ target ∈ Value.referencesOfItems items, ∃ text, write target = .ok text := by
  cases items with
  | nil => simp [Value.referencesOfItems]
  | cons item rest =>
      rw [itemsContent] at written
      obtain ⟨first, item_written, written⟩ := bind_eq_ok_iff.mp written
      obtain ⟨others, rest_written, -⟩ := bind_eq_ok_iff.mp written
      rw [Value.referencesOfItems, List.forall_mem_append]
      exact ⟨exists_of_valueContent item item_written, exists_of_itemsContent rest rest_written⟩

theorem exists_of_entriesContent (entries : List (Live × Live)) {text : String}
    (written : entriesContent write entries = .ok text) :
    ∀ target ∈ Value.referencesOfEntries entries, ∃ text, write target = .ok text := by
  cases entries with
  | nil => simp [Value.referencesOfEntries]
  | cons entry rest =>
      obtain ⟨key, value⟩ := entry
      rw [entriesContent] at written
      obtain ⟨first, key_written, written⟩ := bind_eq_ok_iff.mp written
      obtain ⟨second, value_written, written⟩ := bind_eq_ok_iff.mp written
      obtain ⟨others, rest_written, -⟩ := bind_eq_ok_iff.mp written
      rw [Value.referencesOfEntries, List.forall_mem_append, List.forall_mem_append]
      exact ⟨⟨exists_of_valueContent key key_written, exists_of_valueContent value value_written⟩,
        exists_of_entriesContent rest rest_written⟩

end

/-- Properties are written out from a twin as they were, if what they refer to is. -/
theorem propertiesContent_move {twin : Instance} {properties : List Property} {text : String}
    (holds : HoldsMoved place object twin properties)
    (same : ∀ property ∈ properties, ∀ value, object.get? property.name = some value →
      ∀ target ∈ value.references, ∀ text, write target = .ok text →
        written (place target) = .ok text)
    (given : propertiesContent write object properties = .ok text) :
    propertiesContent written twin properties = .ok text := by
  induction properties generalizing text with
  | nil => exact given
  | cons property rest induction =>
      rw [HoldsMoved, List.forall_mem_cons] at holds
      rw [List.forall_mem_cons] at same
      rw [propertiesContent] at given ⊢
      rw [holds.1]
      cases set : object.get? property.name with
      | none =>
          rw [set] at given
          exact induction holds.2 same.2 given
      | some value =>
          rw [set] at given
          obtain ⟨first, value_written, given⟩ := bind_eq_ok_iff.mp given
          obtain ⟨others, rest_written, given⟩ := bind_eq_ok_iff.mp given
          have value_moved : valueContent written (value.move place) = .ok first := by
            rw [← value_written]
            refine (valueContent_relink value fun target refers => ?_).symm
            obtain ⟨target_text, target_written⟩ :=
              exists_of_valueContent value value_written target refers
            rw [target_written]
            exact (same.1 value set target refers _ target_written).symm
          rw [Option.map_some]
          simp only [bind, Except.bind, value_moved, induction holds.2 same.2 rest_written]
          exact given

end Contents

/-- What a reference leads to is written out alike, if value objects off the path are. -/
theorem Resembles.refContent_congr (accepted : TypeTable.ofDefinitions definitions = .ok types)
    (resembles : Resembles types place roots heap other) {room : Nat} {path : List Slot}
    (given : Capture.refContent types heap room path slot = .ok text)
    (off : ∀ object managed twin, referentAt types heap slot = .ok (.valueObject object managed) →
      other.get? (place slot) = some twin →
        referentAt types other (place slot) = .ok (.valueObject twin managed) → slot ∉ path →
          Capture.refContent types other room (path.map place) (place slot) = .ok text) :
    Capture.refContent types other room (path.map place) (place slot) = .ok text := by
  cases found : referentAt types heap slot with
  | error =>
      rw [refContent_of_error found] at given
      cases given
  | ok referent =>
      cases referent with
      | skipped =>
          rw [← given, refContent_of_skipped found, refContent_of_skipped (resembles.skipped found)]
      | entity id =>
          rw [← given, refContent_of_entity found,
            refContent_of_entity (resembles.entity accepted found)]
      | valueObject object managed =>
          obtain ⟨twin, twin_stands, twin_found⟩ := resembles.valueObject found
          by_cases on_path : slot ∈ path
          · rw [← given, refContent_of_mem found on_path,
              refContent_of_mem twin_found (List.mem_map_of_mem on_path)]
          · exact off object managed twin found twin_stands twin_found on_path

/-- What is written out is written out alike from a heap that resembles this one. -/
theorem Resembles.refContent (accepted : TypeTable.ofDefinitions definitions = .ok types)
    (resembles : Resembles types place roots heap other) {root : Slot} (rooted : root ∈ roots)
    (room : Nat) {path : List Slot} (wrote : Written types heap root slot)
    (given : Capture.refContent types heap room path slot = .ok text) :
    Capture.refContent types other room (path.map place) (place slot) = .ok text := by
  induction room generalizing path slot text with
  | zero =>
      refine resembles.refContent_congr accepted given fun object managed twin found _ twin_found
        off_path => ?_
      rw [← given, refContent_of_full found, refContent_of_full twin_found]
  | succ room induction =>
      refine resembles.refContent_congr accepted given fun object managed twin found twin_stands
        twin_found off_path => ?_
      have twin_off_path : place slot ∉ path.map place := fun member =>
        off_path ((List.mem_map_of_injective resembles.injective).mp member)
      rw [refContent_of_notMem found off_path, map_eq_ok_iff] at given
      obtain ⟨inside, given, rfl⟩ := given
      rw [refContent_of_notMem twin_found twin_off_path, map_eq_ok_iff]
      refine ⟨inside, ?_, rfl⟩
      rw [← List.map_cons]
      refine propertiesContent_move
        (resembles.written root rooted slot object managed twin wrote found twin_stands)
        (fun property declared value set target refers text target_written => ?_) given
      exact induction (.property wrote found declared set refers) target_written

/-- A heap that resembles another one has no fewer slots. -/
theorem Resembles.size_le (resembles : Resembles types place roots heap other) :
    heap.size ≤ other.size := by
  have distinct : ((List.range heap.size).map place).Nodup :=
    List.nodup_range.map resembles.injective
  have inside : ∀ slot ∈ (List.range heap.size).map place, slot < other.size := by
    intro slot member
    obtain ⟨origin, below, rfl⟩ := List.mem_map.mp member
    have present : heap.get? origin = some (heap.instances.get ⟨origin, List.mem_range.mp below⟩) :=
      List.getElem?_eq_getElem _
    obtain ⟨twin, twin_stands, -⟩ := resembles.twin origin _ present
    exact (List.getElem?_eq_some_iff.mp twin_stands).1
  have few := length_le_size distinct inside
  rwa [List.length_map, List.length_range] at few

/-- Set elements have the same names in a heap that resembles this one. -/
theorem Resembles.contentName (accepted : TypeTable.ofDefinitions definitions = .ok types)
    (resembles : Resembles types place roots heap other) {root : Slot} (rooted : root ∈ roots)
    (wrote : Written types heap root slot)
    (given : Capture.contentName types heap (.ref slot) = .ok text) :
    Capture.contentName types other (.ref (place slot)) = .ok text := by
  obtain ⟨content, written, given⟩ := bind_eq_ok_iff.mp given
  rw [content_eq_of_room resembles.size_le, valueContent] at written
  have twin_written := resembles.refContent accepted rooted other.size wrote written
  rw [Capture.contentName, Capture.content, valueContent]
  exact bind_eq_ok_iff.mpr ⟨content, twin_written, given⟩

end Values

section Steps

variable {types : TypeTable} {heap other : Heap} {place : Slot → Slot} {roots : List Slot}
  {definitions : List Definition} {walk after : Walk} {slot : Slot} {object twin : Instance}
  {managed : ManagedType} {id owner : GlobalId} {path : String} {type : Classified} {index : Nat}

theorem name?_move (injective : Function.Injective place) :
    (walk.move place).name? (place slot) = walk.name? slot := by
  have same (entry : Slot × GlobalId) : (place entry.1 == place slot) = (entry.1 == slot) := by
    rw [Bool.eq_iff_iff, beq_iff_eq, beq_iff_eq, injective.eq_iff]
  rw [Walk.name?, Walk.name?, Walk.move, List.find?_map, Option.map_map]
  exact congrArg (Option.map Prod.snd) (List.find?_congr fun entry _ => same entry)

/-- A reference is captured alike. -/
theorem Resembles.captureRef (accepted : TypeTable.ofDefinitions definitions = .ok types)
    (resembles : Resembles types place roots heap other) {value : Captured}
    (captured : Capture.captureRef types heap owner path slot walk = .ok (value, after)) :
    Capture.captureRef types other owner path (place slot) (walk.move place) =
      .ok (value, after.move place) := by
  obtain ⟨referent, found, captured⟩ := bind_eq_ok_iff.mp captured
  apply bind_eq_ok_iff.mpr
  cases referent with
  | skipped =>
      cases captured
      exact ⟨_, resembles.skipped found, rfl⟩
  | entity id =>
      cases captured
      exact ⟨_, resembles.entity accepted found, rfl⟩
  | valueObject object managed =>
      obtain ⟨twin, -, twin_found⟩ := resembles.valueObject found
      refine ⟨_, twin_found, ?_⟩
      simp only [name?_move resembles.injective]
      cases known : walk.name? slot with
      | some id =>
          simp only [known] at captured
          cases captured
          rfl
      | none =>
          simp only [known] at captured
          cases captured
          rfl

/-- The given objects have the same content names in both heaps. -/
def NamedAlike (types : TypeTable) (place : Slot → Slot) (heap other : Heap)
    (slots : List Slot) : Prop :=
  ∀ slot ∈ slots, ∀ name, contentName types heap (.ref slot) = .ok name →
    contentName types other (.ref (place slot)) = .ok name

theorem itemPath_move {item : Live} {result : String}
    (alike : NamedAlike types place heap other (if type.isSet then item.target?.toList else []))
    (placed : itemPath types heap type path index item = .ok result) :
    itemPath types other type path index (item.move place) = .ok result := by
  have same_shape : (item.move place).isRef = item.isRef := by
    cases item <;> simp [Value.move, Value.relink, Value.isRef]
  rw [itemPath] at placed ⊢
  rw [same_shape]
  by_cases by_content : (type.isSet && item.isRef) = true
  · rw [if_pos by_content] at placed ⊢
    obtain ⟨set, ref⟩ := Bool.and_eq_true_iff.mp by_content
    obtain ⟨slot, rfl⟩ : ∃ slot, item = .ref slot := by
      cases item <;> simp_all [Value.isRef]
    obtain ⟨name, named, placed⟩ := bind_eq_ok_iff.mp placed
    rw [if_pos set] at alike
    have moved : (Value.ref slot : Live).move place = .ref (place slot) := by
      simp [Value.move, Value.relink]
    rw [moved]
    exact bind_eq_ok_iff.mpr ⟨name, alike slot (List.mem_singleton_self slot) name named, placed⟩
  · rw [if_neg by_content] at placed ⊢
    exact placed

mutual

/-- A value is captured alike. -/
theorem Resembles.captureValue (accepted : TypeTable.ofDefinitions definitions = .ok types)
    (resembles : Resembles types place roots heap other) {type : Classified} {path : String}
    {walk after : Walk} (live : Live) {value : Captured}
    (alike : NamedAlike types place heap other (setElements type live))
    (captured : Capture.captureValue types heap owner type path live walk = .ok (value, after)) :
    Capture.captureValue types other owner type path (live.move place) (walk.move place) =
      .ok (value, after.move place) := by
  cases live with
  | null | scalar =>
      rw [Capture.captureValue] at captured
      cases captured
      rw [Value.move, Value.relink, Capture.captureValue]
  | ref slot =>
      rw [Capture.captureValue] at captured
      rw [Value.move, Value.relink, Option.map_some, Option.getD_some, Capture.captureValue]
      exact resembles.captureRef accepted captured
  | seq items =>
      rw [Capture.captureValue] at captured
      obtain ⟨⟨values, reached⟩, items_captured, captured⟩ := bind_eq_ok_iff.mp captured
      cases captured
      rw [setElements] at alike
      rw [Value.move, Value.relink, Capture.captureValue,
        resembles.captureItems accepted items alike items_captured]
      rfl
  | map entries =>
      rw [Capture.captureValue] at captured
      obtain ⟨⟨values, reached⟩, entries_captured, captured⟩ := bind_eq_ok_iff.mp captured
      cases captured
      rw [setElements] at alike
      rw [Value.move, Value.relink, Capture.captureValue,
        resembles.captureEntries accepted entries alike entries_captured]
      rfl

theorem Resembles.captureItems (accepted : TypeTable.ofDefinitions definitions = .ok types)
    (resembles : Resembles types place roots heap other) {type : Classified} {path : String}
    {index : Nat} {walk after : Walk} (items : List Live) {values : List Captured}
    (alike : NamedAlike types place heap other (setElementsOfItems type items))
    (captured : Capture.captureItems types heap owner type path index items walk =
      .ok (values, after)) :
    Capture.captureItems types other owner type path index
        (Value.relinkItems (fun slot => some (place slot)) items) (walk.move place) =
      .ok (values, after.move place) := by
  cases items with
  | nil =>
      rw [Capture.captureItems] at captured
      cases captured
      rw [Value.relinkItems, Capture.captureItems]
  | cons item rest =>
      rw [Capture.captureItems] at captured
      obtain ⟨spot, item_placed, captured⟩ := bind_eq_ok_iff.mp captured
      obtain ⟨⟨value, between⟩, item_captured, captured⟩ := bind_eq_ok_iff.mp captured
      obtain ⟨⟨others, reached⟩, rest_captured, captured⟩ := bind_eq_ok_iff.mp captured
      cases captured
      simp only [NamedAlike, setElementsOfItems, List.forall_mem_append] at alike
      have spot_moved := itemPath_move alike.1.1 item_placed
      have item_moved := resembles.captureValue accepted item alike.1.2 item_captured
      have rest_moved := resembles.captureItems accepted rest alike.2 rest_captured
      rw [Value.move] at spot_moved item_moved
      rw [Value.relinkItems, Capture.captureItems]
      simp only [bind, Except.bind, spot_moved, item_moved, rest_moved]

theorem Resembles.captureEntries (accepted : TypeTable.ofDefinitions definitions = .ok types)
    (resembles : Resembles types place roots heap other) {type : Classified} {path : String}
    {index : Nat} {walk after : Walk} (entries : List (Live × Live))
    {values : List (Captured × Captured)}
    (alike : NamedAlike types place heap other (setElementsOfEntries type entries))
    (captured : Capture.captureEntries types heap owner type path index entries walk =
      .ok (values, after)) :
    Capture.captureEntries types other owner type path index
        (Value.relinkEntries (fun slot => some (place slot)) entries) (walk.move place) =
      .ok (values, after.move place) := by
  cases entries with
  | nil =>
      rw [Capture.captureEntries] at captured
      cases captured
      rw [Value.relinkEntries, Capture.captureEntries]
  | cons entry rest =>
      obtain ⟨key, value⟩ := entry
      rw [Capture.captureEntries] at captured
      obtain ⟨⟨newKey, walk₁⟩, key_captured, captured⟩ := bind_eq_ok_iff.mp captured
      obtain ⟨⟨newValue, walk₂⟩, value_captured, captured⟩ := bind_eq_ok_iff.mp captured
      obtain ⟨⟨others, walk₃⟩, rest_captured, captured⟩ := bind_eq_ok_iff.mp captured
      cases captured
      simp only [NamedAlike, setElementsOfEntries, List.forall_mem_append] at alike
      have key_moved := resembles.captureValue accepted key alike.1.1 key_captured
      have value_moved := resembles.captureValue accepted value alike.1.2 value_captured
      have rest_moved := resembles.captureEntries accepted rest alike.2 rest_captured
      rw [Value.move] at key_moved value_moved
      rw [Value.relinkEntries, Capture.captureEntries]
      simp only [bind, Except.bind, key_moved, value_moved, rest_moved]

end

/-- Properties are captured alike. -/
theorem Resembles.captureProperties (accepted : TypeTable.ofDefinitions definitions = .ok types)
    (resembles : Resembles types place roots heap other) {properties : List Property}
    {state final : State} {walk : Walk}
    (holds : HoldsMoved place object twin (heeded types properties))
    (alike : ∀ property ∈ heeded types properties, ∀ value,
      object.get? property.name = some value →
        NamedAlike types place heap other (setElements (types.classify property.type) value))
    (captured : Capture.captureProperties types heap owner object properties state walk =
      .ok (final, after)) :
    Capture.captureProperties types other owner twin properties state (walk.move place) =
      .ok (final, after.move place) := by
  induction properties generalizing state walk with
  | nil =>
      rw [Capture.captureProperties] at captured
      cases captured
      rw [Capture.captureProperties]
  | cons property rest induction =>
      rw [Capture.captureProperties] at captured ⊢
      simp only at captured ⊢
      cases ignored : (types.classify property.type).isIgnored with
      | true =>
          have same : heeded types (property :: rest) = heeded types rest :=
            List.filter_cons_of_neg (by rw [ignored]; decide)
          rw [same] at holds alike
          simp only [ignored] at captured
          exact induction holds alike captured
      | false =>
          have same : heeded types (property :: rest) = property :: heeded types rest :=
            List.filter_cons_of_pos (by rw [ignored]; rfl)
          rw [same, List.forall_mem_cons] at alike
          rw [same, HoldsMoved, List.forall_mem_cons] at holds
          rw [holds.1]
          cases set : object.get? property.name with
          | none =>
              simp only [ignored, set] at captured
              exact induction holds.2 alike.2 captured
          | some value =>
              simp only [ignored, set] at captured
              obtain ⟨⟨stored, between⟩, value_captured, captured⟩ := bind_eq_ok_iff.mp captured
              have value_moved :=
                resembles.captureValue accepted value (alike.1 value set) value_captured
              simp only [Option.map_some, bind, Except.bind, value_moved]
              exact induction holds.2 alike.2 captured

/-- An object that some root leads to is captured alike. -/
theorem Resembles.captureNode (accepted : TypeTable.ofDefinitions definitions = .ok types)
    (resembles : Resembles types place roots heap other) {root : Slot} (rooted : root ∈ roots)
    {node : Node} (reached : Reached types heap root slot)
    (captured : Capture.captureNode types heap slot id walk = .ok (node, after)) :
    Capture.captureNode types other (place slot) id (walk.move place) =
      .ok (node, after.move place) := by
  obtain ⟨object, found, captured⟩ := bind_eq_ok_iff.mp captured
  obtain ⟨managed, typed, captured⟩ := bind_eq_ok_iff.mp captured
  obtain ⟨⟨state, last⟩, state_captured, captured⟩ := bind_eq_ok_iff.mp captured
  cases captured
  have stands := instanceAt_eq_ok_iff.mp found
  obtain ⟨twin, twin_stands, same_class, holds⟩ := resembles.twin slot object stands
  have same_type := managedType_eq_ok_iff.mp typed
  have state_moved := resembles.captureProperties accepted (holds managed same_type)
    (fun property looked_at value set element element_mem name named =>
      resembles.contentName accepted rooted
        (.element reached stands same_type (mem_heeded.mp looked_at).1 (mem_heeded.mp looked_at).2
          set element_mem) named) state_captured
  rw [Capture.captureNode, instanceAt_eq_ok_iff.mpr twin_stands]
  simp only [bind, Except.bind, same_class, typed, state_moved]

end Steps
section Captures

variable {types : TypeTable} {heap other : Heap} {place : Slot → Slot} {roots : List Slot}
  {definitions : List Definition} {walk after last : Walk} {graph final : Graph} {id : GlobalId}

theorem dropWhile_move :
    (walk.move place).pending.dropWhile (fun entry => graph.contains entry.2) =
      (walk.pending.dropWhile fun entry => graph.contains entry.2).map
        fun entry => (place entry.1, entry.2) := by
  rw [Walk.move, List.dropWhile_map]
  rfl

/-- Draining goes in step, given no less room. -/
theorem Resembles.drain (accepted : TypeTable.ofDefinitions definitions = .ok types)
    (resembles : Resembles types place roots heap other) {room more : Nat} (enough : room ≤ more)
    (proper : walk.Proper) (waiting : Waiting types heap roots walk)
    (drained : drainWalk types heap room walk graph = .ok (final, last)) :
    Capture.drain types other more (walk.move place) graph = .ok final := by
  induction room generalizing more walk graph with
  | zero =>
      obtain ⟨finished, rfl, rfl⟩ | ⟨_, _, _, _, _, _, -, less_eq, -⟩ := drainWalk_cases drained
      · exact drain_of_finished (by rw [dropWhile_move, finished, List.map_nil])
      · cases less_eq
  | succ room induction =>
      obtain ⟨finished, rfl, rfl⟩ | ⟨slot, id, rest, _, node, after, next, ⟨⟩, captured,
        drained⟩ := drainWalk_cases drained
      · exact drain_of_finished (by rw [dropWhile_move, finished, List.map_nil])
      obtain ⟨waits, rest_waits, -, -⟩ := Walk.waits_cases next
      obtain ⟨reachable, named⟩ := waiting _ waits
      obtain ⟨root, rooted, reached⟩ := reachable.reached
      have rest_proper : ({ walk with pending := rest } : Walk).Proper :=
        ⟨proper.once, proper.owned⟩
      obtain ⟨-, after_proper, after_waiting, -⟩ := captureNode_portrays rest_proper
        (fun entry member => waiting entry (rest_waits member)) reachable named captured
      have next_moved : (walk.move place).pending.dropWhile
          (fun entry => graph.contains entry.2) = (place slot, id) ::
            (Walk.move place { walk with pending := rest }).pending := by
        rw [dropWhile_move, next]
        rfl
      obtain ⟨more, rfl⟩ : ∃ less, more = less + 1 := ⟨more - 1, by omega⟩
      rw [drain_of_next next_moved (resembles.captureNode accepted rooted reached captured)]
      exact induction (Nat.le_of_succ_le_succ enough) after_proper after_waiting drained

/-- An object is named as a root alike. -/
theorem Resembles.rootId (accepted : TypeTable.ofDefinitions definitions = .ok types)
    (resembles : Resembles types place roots heap other) {slot : Slot}
    (identified : Capture.rootId types heap slot = .ok id) :
    Capture.rootId types other (place slot) = .ok id := by
  rw [rootId_eq_ok_iff_referentAt accepted] at identified ⊢
  rcases identified with found | ⟨object, managed, found, rfl⟩
  · exact .inl (resembles.entity accepted found)
  · obtain ⟨twin, -, twin_found⟩ := resembles.valueObject found
    exact .inr ⟨twin, managed, twin_found, rfl⟩

theorem Resembles.enter (accepted : TypeTable.ofDefinitions definitions = .ok types)
    (resembles : Resembles types place roots heap other) {slots : List Slot} {ids : List GlobalId}
    (entered : Capture.enter types heap slots walk = .ok (ids, after)) :
    Capture.enter types other (slots.map place) (walk.move place) =
      .ok (ids, after.move place) := by
  induction slots generalizing walk ids with
  | nil =>
      cases entered
      rfl
  | cons slot rest induction =>
      obtain ⟨id, identified, entered⟩ := bind_eq_ok_iff.mp entered
      obtain ⟨⟨others, reached⟩, rest_entered, entered⟩ := bind_eq_ok_iff.mp entered
      cases entered
      have rest_moved := induction rest_entered
      have same : (((if id.isValueObject && (walk.name? slot).isNone then walk.giveName slot id
          else walk).push slot id).move place) =
          (if id.isValueObject && ((walk.move place).name? (place slot)).isNone then
            (walk.move place).giveName (place slot) id
          else walk.move place).push (place slot) id := by
        rw [name?_move resembles.injective]
        split <;> rfl
      rw [same] at rest_moved
      rw [List.map_cons, Capture.enter]
      simp only [bind, Except.bind, resembles.rootId accepted identified, rest_moved]

/-- What is captured from a heap is captured from every heap that resembles it. -/
theorem Resembles.capture (accepted : TypeTable.ofDefinitions definitions = .ok types)
    (resembles : Resembles types place roots heap other)
    (captured : Capture.capture types heap roots = .ok graph) :
    Capture.capture types other (roots.map place) = .ok graph := by
  obtain ⟨last, captured⟩ := capture_eq_ok_iff.mp captured
  obtain ⟨⟨ids, walk⟩, entered, drained⟩ := bind_eq_ok_iff.mp captured
  have entering := enter_entering_empty accepted entered
  have entered_moved : Capture.enter types other (roots.map place) .empty =
      .ok (ids, walk.move place) := resembles.enter accepted entered
  rw [Capture.capture]
  apply bind_eq_ok_iff.mpr
  exact ⟨_, entered_moved, resembles.drain accepted resembles.size_le entering.settling.proper
    entering.roots_waiting drained⟩

end Captures

end Capture
end AuditTrail
