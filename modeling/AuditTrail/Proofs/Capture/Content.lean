import AuditTrail.Proofs.Capture.Naming
import AuditTrail.Proofs.Schema.Acceptance

/-!
# Contents and what they are made of

The content of a value object is written out with all its mapped properties that are set, and so
says more than a capture keeps: it writes explicit nulls, and properties of ignored types.  Where
all that is written is also kept, a content can be told from what is kept.
-/

namespace AuditTrail

open Schema

namespace Capture

section Referents

variable {types : TypeTable} {heap : Heap} {slot : Slot} {object : Instance}
  {managed : ManagedType} {id : GlobalId}

theorem instanceAt_eq_ok_iff :
    instanceAt heap slot = .ok object ↔ heap.get? slot = some object := by
  unfold instanceAt
  cases heap.get? slot <;> simp

theorem referentAt_eq_entity_iff :
    referentAt types heap slot = .ok (.entity id) ↔ ∃ object managed,
      heap.get? slot = some object ∧ ¬ types.isIgnored object.className ∧
        types.managedOf? object.className = some managed ∧ managed.isEntity ∧
          entityId object managed = .ok id := by
  rw [referentAt, bind_eq_ok_iff]
  simp only [instanceAt_eq_ok_iff]
  refine exists_congr fun object => ?_
  by_cases ignored : types.isIgnored object.className
  · simp [ignored]
  · rw [if_neg ignored, bind_eq_ok_iff, ← exists_and_left]
    refine exists_congr fun managed => and_congr_right fun _ => ?_
    rw [managedType_eq_ok_iff, and_iff_right ignored]
    refine and_congr_right fun _ => ?_
    by_cases entity : managed.isEntity <;> simp [entity, bind_eq_ok_iff]

theorem referentAt_eq_valueObject_iff :
    referentAt types heap slot = .ok (.valueObject object managed) ↔
      heap.get? slot = some object ∧ ¬ types.isIgnored object.className ∧
        types.managedOf? object.className = some managed ∧ ¬ managed.isEntity := by
  rw [referentAt, bind_eq_ok_iff]
  simp only [instanceAt_eq_ok_iff]
  constructor
  · rintro ⟨object, stands, found⟩
    split at found
    · cases found
    next heeded =>
      obtain ⟨managed, typed, found⟩ := bind_eq_ok_iff.mp found
      split at found
      next =>
        obtain ⟨_, -, found⟩ := bind_eq_ok_iff.mp found
        cases found
      next plain =>
        cases found
        exact ⟨stands, heeded, managedType_eq_ok_iff.mp typed, plain⟩
  · rintro ⟨stands, heeded, typed, plain⟩
    refine ⟨object, stands, ?_⟩
    rw [if_neg heeded, managedType_eq_ok_iff.mpr typed]
    exact if_neg plain

/-- A root is named as what it is when it is referred to, except that a value object has no
owner. -/
theorem rootId_eq_ok_iff_referentAt {definitions : List Definition}
    (accepted : TypeTable.ofDefinitions definitions = .ok types) :
    rootId types heap slot = .ok id ↔ referentAt types heap slot = .ok (.entity id) ∨
      ∃ object managed, referentAt types heap slot = .ok (.valueObject object managed) ∧
        id = .unbounded managed.typeName := by
  simp only [referentAt_eq_entity_iff, referentAt_eq_valueObject_iff]
  constructor
  · intro identified
    obtain ⟨object, stands, identified⟩ := bind_eq_ok_iff.mp identified
    obtain ⟨managed, typed, identified⟩ := bind_eq_ok_iff.mp identified
    rw [instanceAt_eq_ok_iff] at stands
    rw [managedType_eq_ok_iff] at typed
    have heeded := TypeTable.heeded_of_ofDefinitions accepted typed
    split at identified
    next is_entity => exact .inl ⟨object, managed, stands, heeded, typed, is_entity, identified⟩
    next plain =>
      cases identified
      exact .inr ⟨object, managed, ⟨stands, heeded, typed, plain⟩, rfl⟩
  · rintro (⟨object, managed, stands, -, typed, is_entity, identified⟩ |
      ⟨object, managed, ⟨stands, -, typed, plain⟩, rfl⟩)
    · rw [rootId, instanceAt_eq_ok_iff.mpr stands]
      simp only [bind, Except.bind, managedType_eq_ok_iff.mpr typed, is_entity, if_true, identified]
    · rw [rootId, instanceAt_eq_ok_iff.mpr stands]
      simp only [bind, Except.bind, managedType_eq_ok_iff.mpr typed, plain, if_false,
        Bool.false_eq_true]

theorem lt_size_of_valueObject
    (found : referentAt types heap slot = .ok (.valueObject object managed)) :
    slot < heap.size :=
  (List.getElem?_eq_some_iff.mp (referentAt_eq_valueObject_iff.mp found).1).1

end Referents

/-- A value object has a mapped property that refers to a slot. -/
def Follows (types : TypeTable) (heap : Heap) (slot target : Slot) : Prop :=
  ∃ object managed, referentAt types heap slot = .ok (.valueObject object managed) ∧
    ∃ property ∈ managed.properties, ∃ value, object.get? property.name = some value ∧
      target ∈ value.references

section Room

variable {types : TypeTable} {heap : Heap} {room : Nat} {path : List Slot} {slot : Slot}
  {object : Instance} {managed : ManagedType}

theorem refContent_of_skipped (found : referentAt types heap slot = .ok .skipped) :
    refContent types heap room path slot = .ok "null" := by
  rw [refContent.eq_def]
  simp only [found, bind, Except.bind]

theorem refContent_of_entity {id : GlobalId}
    (found : referentAt types heap slot = .ok (.entity id)) :
    refContent types heap room path slot = .ok ("@" ++ id.display) := by
  rw [refContent.eq_def]
  simp only [found, bind, Except.bind]

theorem refContent_of_error {error : CaptureError}
    (failed : referentAt types heap slot = .error error) :
    refContent types heap room path slot = .error error := by
  rw [refContent.eq_def]
  simp only [failed, bind, Except.bind]

/-- A value object that is being written is a cycle. -/
theorem refContent_of_mem (found : referentAt types heap slot = .ok (.valueObject object managed))
    (on_path : slot ∈ path) : refContent types heap room path slot = .ok "<cycle>" := by
  have contained : path.contains slot = true := List.contains_iff_mem.mpr on_path
  rw [refContent.eq_def]
  simp only [found, bind, Except.bind, contained, if_true]

theorem refContent_of_notMem
    (found : referentAt types heap slot = .ok (.valueObject object managed))
    (off_path : slot ∉ path) : refContent types heap (room + 1) path slot =
      (propertiesContent (refContent types heap room (slot :: path)) object managed.properties).map
        fun written => managed.typeName ++ "(" ++ written ++ ")" := by
  rw [refContent.eq_def]
  simp only [found, List.contains_iff_mem, off_path, if_false]
  rfl

theorem refContent_of_full
    (found : referentAt types heap slot = .ok (.valueObject object managed)) :
    refContent types heap 0 path slot = .ok "<cycle>" := by
  rw [refContent.eq_def]
  simp only [found, bind, Except.bind, ite_self]

/-- Contents are the same if those of value objects off the path are. -/
theorem refContent_congr {other : Nat}
    (same : ∀ slot object managed, referentAt types heap slot = .ok (.valueObject object managed) →
      slot ∉ path → refContent types heap room path slot = refContent types heap other path slot) :
    refContent types heap room path = refContent types heap other path := by
  funext slot
  cases found : referentAt types heap slot with
  | error => rw [refContent_of_error found, refContent_of_error found]
  | ok referent =>
      cases referent with
      | skipped => rw [refContent_of_skipped found, refContent_of_skipped found]
      | entity => rw [refContent_of_entity found, refContent_of_entity found]
      | valueObject object managed =>
          by_cases on_path : slot ∈ path
          · rw [refContent_of_mem found on_path, refContent_of_mem found on_path]
          · exact same slot object managed found on_path

/-- There are no more slots on a path than there are instances. -/
theorem length_le_size (distinct : path.Nodup) (inside : ∀ slot ∈ path, slot < heap.size) :
    path.length ≤ heap.size := by
  have few := (List.subperm_of_subset distinct
    fun slot member => List.mem_range.mpr (inside slot member)).length_le
  rwa [List.length_range] at few

/-- Once there is room for every instance that is not on the path, more room changes nothing. -/
theorem refContent_room {other : Nat} (distinct : path.Nodup)
    (inside : ∀ slot ∈ path, slot < heap.size) (enough : heap.size ≤ room + path.length)
    (more : room ≤ other) : refContent types heap room path = refContent types heap other path := by
  induction room generalizing path other with
  | zero =>
      refine refContent_congr fun slot object managed found off_path => ?_
      have longer := length_le_size (List.nodup_cons.mpr ⟨off_path, distinct⟩)
        (List.forall_mem_cons.mpr ⟨lt_size_of_valueObject found, inside⟩)
      rw [List.length_cons] at longer
      omega
  | succ room induction =>
      obtain ⟨other, rfl⟩ : ∃ less, other = less + 1 := ⟨other - 1, by omega⟩
      refine refContent_congr fun slot object managed found off_path => ?_
      rw [refContent_of_notMem found off_path, refContent_of_notMem found off_path,
        induction (List.nodup_cons.mpr ⟨off_path, distinct⟩)
          (List.forall_mem_cons.mpr ⟨lt_size_of_valueObject found, inside⟩)
          (by rw [List.length_cons]; omega) (Nat.le_of_succ_le_succ more)]

/-- A content does not depend on how much room it is given. -/
theorem content_eq_of_room (enough : heap.size ≤ room) (value : Live) :
    content types heap value = valueContent (refContent types heap room []) value := by
  have same : refContent types heap heap.size [] = refContent types heap room [] :=
    refContent_room List.nodup_nil (fun _ member => (nomatch member)) (Nat.le_refl _) enough
  rw [content, same]

end Room

section Relinked

variable {write other : Slot → Except CaptureError String} {link : Slot → Option Slot}

mutual

/-- The content of a value with other references, written so that references without a translation
were written as null. -/
theorem valueContent_relink (value : Live)
    (same : ∀ target ∈ value.references,
      write target = ((link target).map other).getD (.ok "null")) :
    valueContent write value = valueContent other (value.relink link) := by
  cases value with
  | null | scalar => simp only [Value.relink, valueContent]
  | ref target =>
      rw [valueContent, same target (by simp [Value.references]), Value.relink]
      cases link target <;> simp only [Option.map_none, Option.map_some, Option.getD_none,
        Option.getD_some, valueContent]
  | seq items =>
      rw [Value.relink, valueContent, valueContent,
        itemsContent_relink items (by simpa [Value.references] using same)]
  | map entries =>
      rw [Value.relink, valueContent, valueContent,
        entriesContent_relink entries (by simpa [Value.references] using same)]

theorem itemsContent_relink (items : List Live)
    (same : ∀ target ∈ Value.referencesOfItems items,
      write target = ((link target).map other).getD (.ok "null")) :
    itemsContent write items = itemsContent other (Value.relinkItems link items) := by
  cases items with
  | nil => simp only [Value.relinkItems, itemsContent]
  | cons item rest =>
      simp only [Value.referencesOfItems, List.forall_mem_append] at same
      rw [Value.relinkItems, itemsContent, itemsContent, valueContent_relink item same.1,
        itemsContent_relink rest same.2]

theorem entriesContent_relink (entries : List (Live × Live))
    (same : ∀ target ∈ Value.referencesOfEntries entries,
      write target = ((link target).map other).getD (.ok "null")) :
    entriesContent write entries = entriesContent other (Value.relinkEntries link entries) := by
  cases entries with
  | nil => simp only [Value.relinkEntries, entriesContent]
  | cons entry rest =>
      obtain ⟨key, value⟩ := entry
      simp only [Value.referencesOfEntries, List.forall_mem_append] at same
      rw [Value.relinkEntries, entriesContent, entriesContent, valueContent_relink key same.1.1,
        valueContent_relink value same.1.2, entriesContent_relink rest same.2]

end

/-- The content of properties depends on what is written for their references. -/
theorem propertiesContent_congr {object : Instance} {properties : List Property}
    (same : ∀ property ∈ properties, ∀ value, object.get? property.name = some value →
      ∀ target ∈ value.references, write target = other target) :
    propertiesContent write object properties = propertiesContent other object properties := by
  induction properties with
  | nil => rfl
  | cons property rest induction =>
      rw [List.forall_mem_cons] at same
      rw [propertiesContent, propertiesContent, induction same.2]
      cases set : object.get? property.name with
      | none => rfl
      | some value =>
          have value_same : valueContent write value = valueContent other (value.relink some) :=
            valueContent_relink value (same.1 value set)
          rw [Value.relink_some] at value_same
          simp only [value_same]

end Relinked

mutual

/-- The references of a value that are named by content: those that are elements of sets. -/
def setElements (type : Classified) : Live → List Slot
  | .null => []
  | .scalar _ => []
  | .ref _ => []
  | .seq items => setElementsOfItems type items
  | .map entries => setElementsOfEntries type entries

/-- The references that are named by content below the items of a sequence. -/
def setElementsOfItems (type : Classified) : List Live → List Slot
  | [] => []
  | item :: rest =>
    (if type.isSet then item.target?.toList else []) ++ setElements type.item item ++
      setElementsOfItems type rest

/-- The references that are named by content below the entries of a map. -/
def setElementsOfEntries (type : Classified) : List (Live × Live) → List Slot
  | [] => []
  | (key, value) :: rest =>
    setElements (.unknown "") key ++ setElements type.item value ++ setElementsOfEntries type rest

end

mutual

/-- What is named by content is referred to. -/
theorem setElements_subset (type : Classified) (value : Live) :
    setElements type value ⊆ value.references := by
  cases value with
  | null | scalar | ref => simp [setElements]
  | seq items =>
      rw [setElements, Value.references]
      exact setElementsOfItems_subset type items
  | map entries =>
      rw [setElements, Value.references]
      exact setElementsOfEntries_subset type entries

theorem setElementsOfItems_subset (type : Classified) (items : List Live) :
    setElementsOfItems type items ⊆ Value.referencesOfItems items := by
  cases items with
  | nil => simp [setElementsOfItems]
  | cons item rest =>
      have here : (if type.isSet then item.target?.toList else []) ⊆ item.references := by
        split
        · cases item <;> simp [Value.target?, Value.references]
        · exact List.nil_subset _
      intro slot member
      rw [setElementsOfItems, List.mem_append, List.mem_append] at member
      rw [Value.referencesOfItems, List.mem_append]
      exact member.imp (fun member => member.elim (here ·) (setElements_subset type.item item ·))
        (setElementsOfItems_subset type rest ·)

theorem setElementsOfEntries_subset (type : Classified) (entries : List (Live × Live)) :
    setElementsOfEntries type entries ⊆ Value.referencesOfEntries entries := by
  cases entries with
  | nil => simp [setElementsOfEntries]
  | cons entry rest =>
      obtain ⟨key, value⟩ := entry
      intro slot member
      rw [setElementsOfEntries, List.mem_append, List.mem_append] at member
      rw [Value.referencesOfEntries, List.mem_append, List.mem_append]
      exact member.imp (Or.imp (setElements_subset _ key ·) (setElements_subset _ value ·))
        (setElementsOfEntries_subset type rest ·)

end

section Written

variable (types : TypeTable) (heap : Heap) (root : Slot)

/-- Whether a value is captured as null. -/
def readsNull : Live → Bool
  | .null => true
  | .ref slot =>
    match referentAt types heap slot with
    | .ok .skipped => true
    | _ => false
  | _ => false

/-- Every mapped property that is set is kept with a value other than null. -/
def Whole (object : Instance) (managed : ManagedType) : Prop :=
  ∀ property ∈ managed.properties, ∀ value ∈ object.get? property.name,
    ¬ (types.classify property.type).isIgnored ∧ ¬ readsNull types heap value

instance decidableWhole (object : Instance) (managed : ManagedType) :
    Decidable (Whole types heap object managed) :=
  inferInstanceAs (Decidable (∀ property ∈ managed.properties,
    ∀ value ∈ object.get? property.name,
      ¬ (types.classify property.type).isIgnored ∧ ¬ readsNull types heap value))

/-- The slots that a capture from a root comes to. -/
inductive Reached : Slot → Prop
  /-- The root itself. -/
  | root : Reached root
  /-- What a kept property of such an instance refers to. -/
  | step {owner target : Slot} {object : Instance} {managed : ManagedType} {entry : String × Live}
      (reached : Reached owner) (stands : heap.get? owner = some object)
      (typed : types.managedOf? object.className = some managed)
      (kept_entry : entry ∈ kept types object managed.properties)
      (refers : target ∈ entry.2.references) : Reached target

/-- The slots whose contents are written out by a capture from a root. -/
inductive Written : Slot → Prop
  /-- Elements of sets are named by content. -/
  | element {owner slot : Slot} {object : Instance} {managed : ManagedType} {property : Property}
      {value : Live} (reached : Reached types heap root owner)
      (stands : heap.get? owner = some object)
      (typed : types.managedOf? object.className = some managed)
      (declared : property ∈ managed.properties)
      (heeded : ¬ (types.classify property.type).isIgnored)
      (set : object.get? property.name = some value)
      (element : slot ∈ setElements (types.classify property.type) value) : Written slot
  /-- The content of a value object includes that of what it refers to. -/
  | property {owner target : Slot} {object : Instance} {managed : ManagedType}
      {property : Property} {value : Live} (written : Written owner)
      (found : referentAt types heap owner = .ok (.valueObject object managed))
      (declared : property ∈ managed.properties) (set : object.get? property.name = some value)
      (refers : target ∈ value.references) : Written target

/-- All that contents say of value objects is kept. -/
def WrittenWhole : Prop :=
  ∀ slot object managed, Written types heap root slot →
    referentAt types heap slot = .ok (.valueObject object managed) → Whole types heap object managed

variable {types heap root}

/-- All that contents say is kept if all that is set on any value object is. -/
theorem writtenWhole_of_valueObjects
    (whole : ∀ object ∈ heap.instances, ∀ managed ∈ types.managedOf? object.className,
      ¬ managed.isEntity → Whole types heap object managed) : WrittenWhole types heap root := by
  intro slot object managed _ found
  obtain ⟨stands, -, typed, plain⟩ := referentAt_eq_valueObject_iff.mp found
  exact whole object (List.mem_of_getElem? stands) managed typed plain

theorem readsNull_iff {value : Live} :
    readsNull types heap value ↔ value = .null ∨
      ∃ slot, value = .ref slot ∧ referentAt types heap slot = .ok .skipped := by
  cases value with
  | null | scalar | seq | map => simp [readsNull]
  | ref slot =>
      simp only [readsNull, reduceCtorEq, Value.ref.injEq, exists_eq_left', false_or]
      split <;> simp_all

end Written

end Capture
end AuditTrail
