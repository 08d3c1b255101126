import AuditTrail.Proofs.Capture.Resemblance

/-!
# Moved heaps

Nothing is named by where it stands in its heap.  Moving the instances of a heap to other slots and
adding more of them does not change what is captured.
-/

namespace AuditTrail

open Schema

/-- The instance with its references led to other slots. -/
def Instance.move (place : Slot → Slot) (object : Instance) : Instance :=
  { object with properties := object.properties.map fun entry => (entry.1, entry.2.move place) }

theorem Instance.get?_move (place : Slot → Slot) (object : Instance) (name : String) :
    (object.move place).get? name = (object.get? name).map (Value.move place) := by
  rw [get?, get?, move, List.find?_map, Option.map_map, Option.map_map]
  rfl

namespace Heap

variable {heap : Heap}

/-- The slot that an instance moves to.  What refers to no instance stays as it is. -/
def newSlot (heap : Heap) (moves : Equiv.Perm (Fin heap.size)) (slot : Slot) : Slot :=
  if inside : slot < heap.size then moves ⟨slot, inside⟩ else slot

/-- The heap with its instances moved, their references led to the new slots, and more instances
behind them. -/
def moved (heap : Heap) (moves : Equiv.Perm (Fin heap.size)) (more : List Instance) : Heap :=
  ⟨List.ofFn (fun slot => (heap.instances.get (moves.symm slot)).move (heap.newSlot moves)) ++ more⟩

theorem newSlot_of_lt (moves : Equiv.Perm (Fin heap.size)) {slot : Slot}
    (inside : slot < heap.size) : heap.newSlot moves slot = moves ⟨slot, inside⟩ :=
  dif_pos inside

theorem newSlot_lt_iff (moves : Equiv.Perm (Fin heap.size)) {slot : Slot} :
    heap.newSlot moves slot < heap.size ↔ slot < heap.size := by
  by_cases inside : slot < heap.size
  · rw [newSlot_of_lt moves inside]
    exact iff_of_true (Fin.is_lt _) inside
  · rw [newSlot, dif_neg inside]

theorem newSlot_injective (moves : Equiv.Perm (Fin heap.size)) :
    Function.Injective (heap.newSlot moves) := by
  intro slot other same
  by_cases inside : slot < heap.size
  · have other_inside : other < heap.size := by
      rw [← newSlot_lt_iff moves, ← same]
      exact (newSlot_lt_iff moves).mpr inside
    rw [newSlot_of_lt moves inside, newSlot_of_lt moves other_inside] at same
    have same_slot := moves.injective (Fin.ext same)
    exact congrArg Fin.val same_slot
  · have other_outside : ¬ other < heap.size := by
      rw [← newSlot_lt_iff moves, ← same]
      exact fun below => inside ((newSlot_lt_iff moves).mp below)
    rwa [newSlot, dif_neg inside, newSlot, dif_neg other_outside] at same

/-- At its new slot an instance holds what it held, with references led to the new slots. -/
theorem get?_moved (moves : Equiv.Perm (Fin heap.size)) (more : List Instance) {slot : Slot}
    {object : Instance} (stands : heap.get? slot = some object) :
    (heap.moved moves more).get? (heap.newSlot moves slot) =
      some (object.move (heap.newSlot moves)) := by
  obtain ⟨inside, rfl⟩ := List.getElem?_eq_some_iff.mp stands
  rw [newSlot_of_lt moves inside, get?, moved, List.getElem?_append_left (by simp),
    List.getElem?_ofFn, dif_pos (Fin.is_lt _), Fin.eta, Equiv.symm_apply_apply]
  rfl

end Heap

namespace Capture

variable {types : TypeTable} {heap : Heap} {roots : List Slot} {definitions : List Definition}
  {graph : Graph}

theorem resembles_moved (moves : Equiv.Perm (Fin heap.size)) (more : List Instance) :
    Resembles types (heap.newSlot moves) roots heap (heap.moved moves more) where
  injective := Heap.newSlot_injective moves
  twin slot object stands := by
    refine ⟨_, Heap.get?_moved moves more stands, rfl, fun managed _ property _ => ?_⟩
    exact object.get?_move _ property.name
  written root _ slot object managed twin _ found twin_stands := by
    have stands := (referentAt_eq_valueObject_iff.mp found).1
    rw [Heap.get?_moved moves more stands] at twin_stands
    obtain rfl := Option.some.inj twin_stands
    exact fun property _ => object.get?_move _ property.name

/-- Moving the instances of a heap and adding more of them does not change what is captured. -/
theorem capture_moved (accepted : TypeTable.ofDefinitions definitions = .ok types)
    (captured : capture types heap roots = .ok graph) (moves : Equiv.Perm (Fin heap.size))
    (more : List Instance) :
    capture types (heap.moved moves more) (roots.map (heap.newSlot moves)) = .ok graph :=
  (resembles_moved moves more).capture accepted captured

/-- Two tags at one spot are elements of a set, named by their content.  The spot leads back to the
user and to itself.  All four instances move on by one slot, the last one to the front, and a spot
that nothing refers to follows them. -/
theorem capture_moved_cyclic :
    let user : Definition :=
      .entity ⟨"User", none, [⟨"id", .named "int", true, false⟩,
        ⟨"tags", .set (.named "Tag"), false, false⟩], []⟩ none
    let tag : Definition :=
      .valueObject ⟨"Tag", none, [⟨"name", .named "string", false, false⟩,
        ⟨"spot", .named "Spot", false, false⟩], []⟩
    let spot : Definition :=
      .valueObject ⟨"Spot", none, [⟨"of", .named "User", false, false⟩,
        ⟨"near", .list (.named "Spot"), false, false⟩], []⟩
    let heap : Heap :=
      ⟨[.ofList "User" [("id", .scalar (.int 1)), ("tags", .seq [.ref 1, .ref 2])],
        .ofList "Tag" [("name", .scalar (.text "a")), ("spot", .ref 3)],
        .ofList "Tag" [("name", .scalar (.text "b")), ("spot", .ref 3)],
        .ofList "Spot" [("of", .ref 0), ("near", .seq [.ref 3])]]⟩
    let other : Heap :=
      ⟨[.ofList "Spot" [("of", .ref 1), ("near", .seq [.ref 0])],
        .ofList "User" [("id", .scalar (.int 1)), ("tags", .seq [.ref 2, .ref 3])],
        .ofList "Tag" [("name", .scalar (.text "a")), ("spot", .ref 0)],
        .ofList "Tag" [("name", .scalar (.text "b")), ("spot", .ref 0)], .ofClass "Spot"]⟩
    ∃ types graph, TypeTable.ofDefinitions [user, tag, spot] = .ok types ∧
      capture types heap [0] = .ok graph ∧ graph.size = 4 ∧
      heap.moved (finRotate 4) [.ofClass "Spot"] = other ∧ capture types other [1] = .ok graph := by
  intro user tag spot heap other
  obtain ⟨types, accepted⟩ : ∃ types, TypeTable.ofDefinitions [user, tag, spot] = .ok types :=
    ⟨_, rfl⟩
  have usual : ∀ types ∈ (TypeTable.ofDefinitions [user, tag, spot]).toOption,
      ∃ graph ∈ (capture types heap [0]).toOption, graph.size = 4 := by decide +kernel
  obtain ⟨graph, captured, four⟩ := usual types (mem_toOption accepted)
  have moved : heap.moved (finRotate 4) [.ofClass "Spot"] = other := rfl
  refine ⟨types, graph, accepted, mem_toOption_iff.mp captured, four, moved, ?_⟩
  rw [← moved]
  exact capture_moved accepted (mem_toOption_iff.mp captured) (finRotate 4) [.ofClass "Spot"]

end Capture
end AuditTrail
