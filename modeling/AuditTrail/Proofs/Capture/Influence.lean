import AuditTrail.Proofs.Capture.Resemblance

/-!
# What influences a capture

A capture does not look at what is set under undeclared names or as properties of ignored types,
with one exception: the content that names an element of a set is written out with all mapped
properties, those of ignored types among them.  Heaps that agree in what captures look at, and in
all mapped properties of what is written out, are captured alike; without the latter they need not
be.
-/

namespace AuditTrail

open Schema

namespace Instance

variable {object : Instance} {name other : String} {value : Live}

theorem get?_set_of_ne (ne : other ≠ name) :
    (object.set name value).get? other = object.get? other := by
  rw [get?, get?, set]
  congr 1
  induction object.properties with
  | nil => exact List.find?_cons_of_neg (by simpa using ne.symm)
  | cons entry rest induction =>
      rw [setIn]
      split
      next same =>
        have passed : entry.1 ≠ other := fun here => ne (here.symm.trans (eq_of_beq same))
        rw [List.find?_cons_of_neg (by simpa using ne.symm),
          List.find?_cons_of_neg (by simpa using passed)]
      next => rw [List.find?_cons, List.find?_cons, induction]

end Instance

theorem Heap.get?_update {heap : Heap} {slot other : Slot} {change : Instance → Instance} :
    (heap.update slot change).get? other =
      (heap.get? other).map fun object => if slot = other then change object else object :=
  List.getElem?_modify ..

namespace Capture

/-- In the given properties two instances hold the same. -/
def HoldsSame (object twin : Instance) (properties : List Property) : Prop :=
  ∀ property ∈ properties, twin.get? property.name = object.get? property.name

/-- Two heaps have instances of the same classes, which hold the same in all that captures look
at. -/
structure AgreeOnHeeded (types : TypeTable) (heap other : Heap) : Prop where
  /-- There are equally many instances. -/
  size : heap.size = other.size
  /-- Instances at one slot are of one class. -/
  same_class : ∀ slot object twin, heap.get? slot = some object → other.get? slot = some twin →
    twin.className = object.className
  /-- Instances at one slot hold the same, except under undeclared names and in properties that are
  ignored or of ignored types. -/
  holds : ∀ slot object twin managed, heap.get? slot = some object →
    other.get? slot = some twin → types.managedOf? object.className = some managed →
      HoldsSame object twin (heeded types managed.properties)

/-- Value objects whose contents are written out by a capture of the first heap hold the same in all
mapped properties. -/
def AgreeOnWritten (types : TypeTable) (roots : List Slot) (heap other : Heap) : Prop :=
  ∀ root ∈ roots, ∀ slot object managed twin, Written types heap root slot →
    referentAt types heap slot = .ok (.valueObject object managed) →
      other.get? slot = some twin → HoldsSame object twin managed.properties

section Agreement

variable {types : TypeTable} {heap other : Heap} {roots : List Slot} {root slot : Slot}
  {definitions : List Definition}

theorem HoldsSame.symm {object twin : Instance} {properties : List Property}
    (holds : HoldsSame object twin properties) : HoldsSame twin object properties :=
  fun property declared => (holds property declared).symm

theorem HoldsSame.moved {object twin : Instance} {properties : List Property}
    (holds : HoldsSame object twin properties) : HoldsMoved id object twin properties := by
  intro property declared
  have still : Value.move id = id := funext Value.relink_some
  rw [still, Option.map_id, holds property declared, id]

theorem AgreeOnHeeded.symm (agree : AgreeOnHeeded types heap other) :
    AgreeOnHeeded types other heap where
  size := agree.size.symm
  same_class slot object twin stands twin_stands :=
    (agree.same_class slot twin object twin_stands stands).symm
  holds slot object twin managed stands twin_stands typed := by
    rw [agree.same_class slot twin object twin_stands stands] at typed
    exact (agree.holds slot twin object managed twin_stands stands typed).symm

theorem AgreeOnHeeded.exists_twin (agree : AgreeOnHeeded types heap other) {object : Instance}
    (stands : heap.get? slot = some object) : ∃ twin, other.get? slot = some twin := by
  have inside : slot < heap.size := (List.getElem?_eq_some_iff.mp stands).1
  rw [agree.size] at inside
  exact ⟨_, List.getElem?_eq_getElem inside⟩

/-- A value object stands at its slot in either heap, though it may hold something else. -/
theorem AgreeOnHeeded.valueObject (agree : AgreeOnHeeded types heap other)
    {object twin : Instance} {managed : ManagedType}
    (found : referentAt types heap slot = .ok (.valueObject object managed))
    (twin_stands : other.get? slot = some twin) :
    referentAt types other slot = .ok (.valueObject twin managed) := by
  obtain ⟨stands, notIgnored, typed, plain⟩ := referentAt_eq_valueObject_iff.mp found
  have same_class := agree.same_class slot object twin stands twin_stands
  apply referentAt_eq_valueObject_iff.mpr
  exact ⟨twin_stands, same_class ▸ notIgnored, same_class ▸ typed, plain⟩

theorem AgreeOnHeeded.resembles (agree : AgreeOnHeeded types heap other)
    (alike : AgreeOnWritten types roots heap other) : Resembles types id roots heap other where
  injective := Function.injective_id
  twin slot object stands := by
    obtain ⟨twin, twin_stands⟩ := agree.exists_twin stands
    refine ⟨twin, twin_stands, agree.same_class slot object twin stands twin_stands, ?_⟩
    exact fun managed typed => (agree.holds slot object twin managed stands twin_stands typed).moved
  written root rooted slot object managed twin wrote found twin_stands :=
    (alike root rooted slot object managed twin wrote found twin_stands).moved

/-- A root leads to the same slots in heaps that agree. -/
theorem AgreeOnHeeded.reached (agree : AgreeOnHeeded types heap other)
    (reached : Reached types heap root slot) : Reached types other root slot := by
  induction reached with
  | root => exact .root
  | @step owner target object managed entry _ stands typed kept_entry refers induction =>
      obtain ⟨twin, twin_stands⟩ := agree.exists_twin stands
      have same_class := agree.same_class owner object twin stands twin_stands
      have holds := agree.holds owner object twin managed stands twin_stands typed
      obtain ⟨property, declared, looked_at, named, set⟩ := mem_kept_iff.mp kept_entry
      have twin_kept : entry ∈ kept types twin managed.properties := by
        refine mem_kept_iff.mpr ⟨property, declared, looked_at, named, ?_⟩
        rw [← named, holds property (mem_heeded.mpr ⟨declared, looked_at⟩), named, set]
      exact .step induction twin_stands (same_class ▸ typed) twin_kept refers

/-- Contents of the same slots are written out from heaps that agree in what is written. -/
theorem AgreeOnWritten.written (agree : AgreeOnHeeded types heap other)
    (alike : AgreeOnWritten types roots heap other) (rooted : root ∈ roots)
    (wrote : Written types other root slot) : Written types heap root slot := by
  induction wrote with
  | @element owner slot object managed property value reached stands typed declared looked_at set
      element =>
      obtain ⟨twin, twin_stands⟩ := agree.symm.exists_twin stands
      have same_class := agree.symm.same_class owner object twin stands twin_stands
      have holds := agree.symm.holds owner object twin managed stands twin_stands typed
      rw [← holds property (mem_heeded.mpr ⟨declared, looked_at⟩)] at set
      exact .element (agree.symm.reached reached) twin_stands (same_class ▸ typed) declared
        looked_at set element
  | @property owner target object managed property value _ found declared set refers induction =>
      have stands := (referentAt_eq_valueObject_iff.mp found).1
      obtain ⟨twin, twin_stands⟩ := agree.symm.exists_twin stands
      have twin_found := agree.symm.valueObject found twin_stands
      have holds := alike root rooted owner twin managed object induction twin_found stands
      rw [holds property declared] at set
      exact .property induction twin_found declared set refers

theorem AgreeOnWritten.symm (agree : AgreeOnHeeded types heap other)
    (alike : AgreeOnWritten types roots heap other) : AgreeOnWritten types roots other heap := by
  intro root rooted slot object managed twin wrote found twin_stands
  have stands := (referentAt_eq_valueObject_iff.mp found).1
  have twin_found := agree.symm.valueObject found twin_stands
  have twin_wrote := alike.written agree rooted wrote
  exact (alike root rooted slot twin managed object twin_wrote twin_found stands).symm

/-- Setting what captures do not look at gives a heap that agrees. -/
theorem agreeOnHeeded_update {name : String} {value : Live}
    (unheeded : ∀ object ∈ heap.get? slot, ∀ managed ∈ types.managedOf? object.className,
      ∀ property ∈ heeded types managed.properties, property.name ≠ name) :
    AgreeOnHeeded types heap (heap.update slot (·.set name value)) where
  size := (List.length_modify ..).symm
  same_class spot object twin stands twin_stands := by
    rw [Heap.get?_update, stands] at twin_stands
    obtain rfl := Option.some.inj twin_stands
    split <;> rfl
  holds spot object twin managed stands twin_stands typed property looked_at := by
    rw [Heap.get?_update, stands] at twin_stands
    obtain rfl := Option.some.inj twin_stands
    split
    next here =>
      subst here
      exact Instance.get?_set_of_ne (unheeded object stands managed typed property looked_at)
    next => rfl

theorem agreeOnWritten_update {name : String} {value : Live}
    (unwritten : ∀ root ∈ roots, ¬ Written types heap root slot) :
    AgreeOnWritten types roots heap (heap.update slot (·.set name value)) := by
  intro root rooted spot object managed twin wrote found twin_stands property declared
  have elsewhere : slot ≠ spot := fun here => unwritten root rooted (here ▸ wrote)
  rw [Heap.get?_update, (referentAt_eq_valueObject_iff.mp found).1] at twin_stands
  obtain rfl := Option.some.inj twin_stands
  exact congrArg (Instance.get? · property.name) (if_neg elsewhere)

/-- What is written out is among slots that contain all elements of sets and are closed under
references. -/
theorem mem_of_written {listed : List Slot}
    (elements : ∀ object ∈ heap.instances, ∀ managed ∈ types.managedOf? object.className,
      ∀ property ∈ heeded types managed.properties, ∀ value ∈ object.get? property.name,
        setElements (types.classify property.type) value ⊆ listed)
    (closed : ∀ owner ∈ listed, ∀ object ∈ heap.get? owner,
      ∀ managed ∈ types.managedOf? object.className, ∀ property ∈ managed.properties,
        ∀ value ∈ object.get? property.name, value.references ⊆ listed)
    (wrote : Written types heap root slot) : slot ∈ listed := by
  induction wrote with
  | @element owner slot object managed property value _ stands typed declared looked_at set
      element =>
      exact elements object (List.mem_of_getElem? stands) managed typed property
        (mem_heeded.mpr ⟨declared, looked_at⟩) value set element
  | @property owner target object managed property value _ found declared set refers induction =>
      obtain ⟨stands, -, typed, -⟩ := referentAt_eq_valueObject_iff.mp found
      exact closed owner induction object stands managed typed property declared value set refers

/-- Nothing that is ignored, undeclared or of an ignored type influences what is captured, if it
does not belong to a value object whose content is written out. -/
theorem capture_congr (accepted : TypeTable.ofDefinitions definitions = .ok types)
    (agree : AgreeOnHeeded types heap other) (alike : AgreeOnWritten types roots heap other)
    (graph : Graph) :
    capture types heap roots = .ok graph ↔ capture types other roots = .ok graph := by
  constructor
  · intro captured
    have moved := (agree.resembles alike).capture accepted captured
    rwa [List.map_id] at moved
  · intro captured
    have moved := (agree.symm.resembles (alike.symm agree)).capture accepted captured
    rwa [List.map_id] at moved

end Agreement

/-- A token that is set at an address does not change what is captured, though nothing stands where
it leads.  The user's tag is named by its content. -/
theorem capture_congr_token :
    let user : Definition :=
      .entity ⟨"User", none, [⟨"id", .named "int", true, false⟩,
        ⟨"tags", .set (.named "Tag"), false, false⟩, ⟨"home", .named "Address", false, false⟩],
        []⟩ none
    let tag : Definition :=
      .valueObject ⟨"Tag", none, [⟨"name", .named "string", false, false⟩], []⟩
    let address : Definition :=
      .valueObject ⟨"Address", none, [⟨"street", .named "string", false, false⟩,
        ⟨"token", .named "Token", false, false⟩], []⟩
    let heap : Heap :=
      ⟨[.ofList "User" [("id", .scalar (.int 1)), ("tags", .seq [.ref 1]), ("home", .ref 2)],
        .ofList "Tag" [("name", .scalar (.text "a"))],
        .ofList "Address" [("street", .scalar (.text "Main"))]]⟩
    let other := heap.update 2 (·.set "token" (.ref 9))
    ∃ types graph, TypeTable.ofDefinitions [user, tag, address, .ignored "Token"] = .ok types ∧
      AgreeOnHeeded types heap other ∧ AgreeOnWritten types [0] heap other ∧ graph.size = 3 ∧
        capture types heap [0] = .ok graph ∧ capture types other [0] = .ok graph := by
  intro user tag address heap other
  obtain ⟨types, accepted⟩ : ∃ types,
      TypeTable.ofDefinitions [user, tag, address, .ignored "Token"] = .ok types := ⟨_, rfl⟩
  have usual : ∀ types ∈
        (TypeTable.ofDefinitions [user, tag, address, .ignored "Token"]).toOption,
      (∀ object ∈ heap.get? 2, ∀ managed ∈ types.managedOf? object.className,
        ∀ property ∈ heeded types managed.properties, property.name ≠ "token") ∧
      (∀ object ∈ heap.instances, ∀ managed ∈ types.managedOf? object.className,
        ∀ property ∈ heeded types managed.properties, ∀ value ∈ object.get? property.name,
          setElements (types.classify property.type) value ⊆ [1]) ∧
      (∀ owner ∈ [1], ∀ object ∈ heap.get? owner,
        ∀ managed ∈ types.managedOf? object.className, ∀ property ∈ managed.properties,
          ∀ value ∈ object.get? property.name, value.references ⊆ [1]) ∧
      ∃ graph ∈ (capture types heap [0]).toOption, graph.size = 3 := by decide +kernel
  obtain ⟨unheeded, elements, closed, graph, captured, three⟩ := usual types (mem_toOption accepted)
  have agree : AgreeOnHeeded types heap other := agreeOnHeeded_update unheeded
  have alike : AgreeOnWritten types [0] heap other := by
    refine agreeOnWritten_update fun root _ wrote => ?_
    exact absurd (mem_of_written elements closed wrote) (by decide)
  rw [mem_toOption_iff] at captured
  refine ⟨types, graph, accepted, agree, alike, three, captured, ?_⟩
  exact (capture_congr accepted agree alike graph).mp captured

/-- A tag in a set is named by a content that is written out with its token, though the token's
class is ignored: setting the token names the tag anew, and leading it nowhere makes the capture
fail. -/
theorem capture_ne_of_token :
    let user : Definition :=
      .entity ⟨"User", none, [⟨"id", .named "int", true, false⟩,
        ⟨"tags", .set (.named "Tag"), false, false⟩], []⟩ none
    let tag : Definition :=
      .valueObject ⟨"Tag", none, [⟨"name", .named "string", false, false⟩,
        ⟨"token", .named "Token", false, false⟩], []⟩
    let heap : Heap :=
      ⟨[.ofList "User" [("id", .scalar (.int 1)), ("tags", .seq [.ref 1])],
        .ofList "Tag" [("name", .scalar (.text "a"))]]⟩
    let set := heap.update 1 (·.set "token" (.scalar (.text "secret")))
    let lost := heap.update 1 (·.set "token" (.ref 9))
    ∃ types, TypeTable.ofDefinitions [user, tag, .ignored "Token"] = .ok types ∧
      AgreeOnHeeded types heap set ∧ AgreeOnHeeded types heap lost ∧
      ∃ graph other, capture types heap [0] = .ok graph ∧ capture types set [0] = .ok other ∧
        graph.ids ≠ other.ids ∧ capture types lost [0] = .error (.dangling 9) := by
  intro user tag heap set lost
  obtain ⟨types, accepted⟩ : ∃ types,
      TypeTable.ofDefinitions [user, tag, .ignored "Token"] = .ok types := ⟨_, rfl⟩
  have usual : ∀ types ∈ (TypeTable.ofDefinitions [user, tag, .ignored "Token"]).toOption,
      (∀ object ∈ heap.get? 1, ∀ managed ∈ types.managedOf? object.className,
        ∀ property ∈ heeded types managed.properties, property.name ≠ "token") ∧
      ∃ graph ∈ (capture types heap [0]).toOption, ∃ other ∈ (capture types set [0]).toOption,
        graph.ids ≠ other.ids ∧
          (capture types lost [0]).map (fun _ => ()) = .error (.dangling 9) := by decide +kernel
  obtain ⟨unheeded, graph, captured, other, also, differ, failed⟩ :=
    usual types (mem_toOption accepted)
  exact ⟨types, accepted, agreeOnHeeded_update unheeded, agreeOnHeeded_update unheeded, graph,
    other, mem_toOption_iff.mp captured, mem_toOption_iff.mp also, differ, map_eq_error_iff.mp failed⟩

end Capture
end AuditTrail
