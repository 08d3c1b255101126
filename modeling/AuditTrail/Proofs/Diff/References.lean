import AuditTrail.Proofs.Capture.Closed
import AuditTrail.Proofs.Diff.Comparison
import AuditTrail.Proofs.Schema.Names

/-!
# References of unchanged nodes

Comparators of value classes see scalars only, and everything else is compared natively unless a
custom class says otherwise.  Without custom classes, a node that has not changed therefore refers
to the same nodes as before, as long as the properties that are captured are the ones compared.
-/

namespace AuditTrail

open Schema

/-- No part of a type is custom. -/
def Schema.Classified.Plain (type : Classified) : Prop :=
  type.ComparatorsAre (fun _ => True) fun _ => False

/-- What is captured of a type is compared: no ignored property is declared before another one of
its name that is not ignored. -/
def Schema.TypeTable.ComparesCaptured (types : TypeTable) : Prop :=
  ∀ managed ∈ types.managed, ∀ property ∈ managed.properties,
    ¬ (types.classify property.type).isIgnored →
      ∀ first ∈ managed.property? property.name, ¬ (types.classify first.type).isIgnored

instance Schema.TypeTable.decidableComparesCaptured (types : TypeTable) :
    Decidable types.ComparesCaptured :=
  inferInstanceAs (Decidable (∀ managed ∈ types.managed, ∀ property ∈ managed.properties,
    ¬ (types.classify property.type).isIgnored →
      ∀ first ∈ managed.property? property.name, ¬ (types.classify first.type).isIgnored))

/-- The type name of a captured node leads to its managed type. -/
theorem Node.Formed.registered {types : Schema.TypeTable} {node : Node}
    (formed : node.Formed types) (names : types.NamesDistinct) :
    ∃ managed ∈ types.managed, types.managedByName? node.typeName = some managed ∧
      managed.typeName = node.typeName ∧
        ∀ name ∈ node.state.names, ∃ property ∈ managed.properties, property.name = name ∧
          ¬ (types.classify property.type).isIgnored := by
  obtain ⟨managed, member, named, declared⟩ := formed.typed
  have shown := names.managedByName? member
  rw [named] at shown
  exact ⟨managed, member, shown, named, declared⟩

namespace Value

variable {ρ : Type}

theorem references_of_elements? {value : Value ρ} {items : List (Value ρ)}
    (found : value.elements? = some items) : value.references = referencesOfItems items := by
  cases value <;> cases found <;> rfl

theorem references_of_entries? {value : Value ρ} {entries : List (Value ρ × Value ρ)}
    (found : value.entries? = some entries) : value.references = referencesOfEntries entries := by
  cases value <;> cases found <;> rfl

end Value

namespace Comparison

variable {type item : Classified} {left right : Captured} {target : GlobalId}

theorem references_of_equal (plain : type.Plain) (equal : type.equal left right) :
    left.references = right.references := by
  cases type with
  | custom => exact plain.elim
  | value _ rule =>
      cases left <;> cases right <;> first
        | rfl
        | exact Value.references_eq_of_beq equal
  | _ => exact Value.references_eq_of_beq equal

theorem references_of_matching (plain : item.Plain) {lefts rights : List Captured}
    (matching : List.Forall₂ (fun l r => item.equal l r) lefts rights) :
    Value.referencesOfItems lefts = Value.referencesOfItems rights := by
  induction matching with
  | nil => rfl
  | cons equal _ induction =>
      rw [Value.referencesOfItems, Value.referencesOfItems, references_of_equal plain equal,
        induction]

/-- Sets that are the same have the same references. -/
theorem references_of_compareSets (plain : item.Plain) {lefts rights : List Captured}
    (same : compareSets item lefts rights = .same) :
    target ∈ Value.referencesOfItems lefts ↔ target ∈ Value.referencesOfItems rights := by
  obtain ⟨in_left, in_right⟩ := compareSets_eq_same_iff.mp same
  simp only [Value.mem_referencesOfItems_iff]
  constructor
  · rintro ⟨l, l_mem, refers⟩
    obtain ⟨r, r_mem, equal⟩ := in_right l l_mem
    exact ⟨r, r_mem, references_of_equal plain equal ▸ refers⟩
  · rintro ⟨r, r_mem, refers⟩
    obtain ⟨l, l_mem, equal⟩ := in_left r r_mem
    exact ⟨l, l_mem, (references_of_equal plain equal).symm ▸ refers⟩

/-- Maps that are the same have the same references if the keys on the right are distinct. -/
theorem references_of_compareMaps (plain : item.Plain)
    {lefts rights : List (Captured × Captured)} (distinct : (Value.map rights).KeysDistinct)
    (same : compareMaps item lefts rights = .same) :
    target ∈ Value.referencesOfEntries lefts ↔ target ∈ Value.referencesOfEntries rights := by
  obtain ⟨in_left, matched⟩ := compareMaps_eq_same_iff.mp same
  -- Entries of equal keys have matching values, so they have the same references.
  have of_keys {l r : Captured × Captured} (l_mem : l ∈ lefts) (r_mem : r ∈ rights)
      (keys : r.1 == l.1) : r.1.references = l.1.references ∧ l.2.references = r.2.references := by
    obtain ⟨new, found, equal⟩ := matched l l_mem
    rw [valueAt?_of_mem distinct r_mem keys, Option.some.injEq] at found
    rw [found]
    exact ⟨Value.references_eq_of_beq keys, references_of_equal plain equal⟩
  simp only [Value.mem_referencesOfEntries_iff]
  constructor
  · rintro ⟨l, l_mem, refers⟩
    obtain ⟨new, found, -⟩ := matched l l_mem
    obtain ⟨r, r_mem, keys, -⟩ := valueAt?_eq_some found
    obtain ⟨key_refs, value_refs⟩ := of_keys l_mem r_mem keys
    exact ⟨r, r_mem, by rwa [key_refs, ← value_refs]⟩
  · rintro ⟨r, r_mem, refers⟩
    obtain ⟨l, l_mem, keys⟩ := isSome_valueAt?_iff.mp (in_left r r_mem)
    obtain ⟨key_refs, value_refs⟩ := of_keys l_mem r_mem (BEq.symm keys)
    exact ⟨l, l_mem, by rwa [← key_refs, value_refs]⟩

/-- Containers that are the same have the same references. -/
theorem references_of_compareContainers (plain : type.Plain) (alignment : Alignment)
    (distinct : right.KeysDistinct)
    (same : compareContainers alignment type left right = .same) :
    target ∈ left.references ↔ target ∈ right.references := by
  cases type with
  | collection kind item =>
      have item_plain : item.Plain := plain
      simp only [compareContainers] at same
      split at same
      next lefts rights left_items right_items =>
        rw [Value.references_of_elements? left_items, Value.references_of_elements? right_items]
        cases kind with
        | list | array =>
            have matching :=
              Alignment.matching_of_script_eq_nil _ (ofEdits_eq_same_iff.mp same)
            rw [references_of_matching item_plain matching]
        | set => exact references_of_compareSets item_plain same
      next => cases same
  | mapping key item =>
      have item_plain : item.Plain := plain
      simp only [compareContainers] at same
      split at same
      next lefts rights left_entries right_entries =>
        rw [Value.references_of_entries? left_entries, Value.references_of_entries? right_entries]
        refine references_of_compareMaps item_plain ?_ same
        cases right <;> cases right_entries
        · exact .nil
        · exact distinct
      next => cases same
  | _ => cases same

theorem references_of_compareLeaves (plain : type.Plain)
    (same : compareLeaves type left right = none) : left.references = right.references := by
  unfold compareLeaves at same
  split at same
  next equal => exact references_of_equal plain equal
  next => split at same <;> cases same

theorem references_of_compareShaped {shape : Classified} (shape_plain : shape.Plain)
    (plain : type.Plain) (alignment : Alignment) (distinct : right.KeysDistinct)
    (same : compareShaped alignment shape type left right = none) :
    target ∈ left.references ↔ target ∈ right.references := by
  unfold compareShaped at same
  split at same
  · cases same
  next contained => exact references_of_compareContainers shape_plain alignment distinct contained
  next => rw [references_of_compareLeaves plain same]

/-- Values that do not differ have the same references. -/
theorem references_of_compareValues (plain : type.Plain) (kept : ¬ type.isIgnored)
    (alignment : Alignment) (distinct : right.KeysDistinct)
    (same : compareValues alignment type left right = none) :
    target ∈ left.references ↔ target ∈ right.references := by
  cases type with
  | ignored => exact absurd rfl kept
  | custom => exact plain.elim
  | collection | mapping => exact references_of_compareShaped plain plain alignment distinct same
  | value | reference => rw [references_of_compareLeaves plain same]
  | unknown name =>
      rw [compareValues] at same
      split at same
      next shape found =>
        exact references_of_compareShaped (inferred?_comparatorsAre found) plain alignment distinct
          same
      next => rw [references_of_compareLeaves plain same]

section Properties

variable {types : TypeTable} {name : String}

/-- Appending new names does not change what is found first. -/
theorem find?_addNew (known more : List (String × Classified)) :
    (addNew known more).find? (fun property => property.1 == name) =
      (known ++ more).find? fun property => property.1 == name := by
  induction more generalizing known with
  | nil => rw [addNew_nil, List.append_nil]
  | cons head more induction =>
      rw [addNew_cons, induction]
      split
      next already =>
        by_cases here : head.1 = name
        · obtain ⟨other, other_mem, same⟩ := List.mem_map.mp already
          have found : (known.find? fun property => property.1 == name).isSome :=
            List.find?_isSome.mpr ⟨other, other_mem, by rw [same, here, beq_self_eq_true]⟩
          simp only [List.find?_append, Option.or_of_isSome found]
        · simp [List.find?_append, here]
      next => rw [List.append_assoc, List.singleton_append]

/-- Nodes of one registered type are compared by the first declaration of each property. -/
theorem find?_comparedProperties {old new : Node} {managed : ManagedType}
    (old_type : types.managedByName? old.typeName = some managed)
    (new_type : types.managedByName? new.typeName = some managed) :
    (comparedProperties types (some old) (some new)).find? (fun property => property.1 == name) =
      (managed.property? name).map fun property =>
        (property.name, types.classify property.type) := by
  have both : typeOf? types (some new) = some managed ∧ typeOf? types (some old) = some managed :=
    ⟨new_type, old_type⟩
  rw [comparedProperties_registered (.inl (by rw [both.1]; exact Option.some_ne_none _)),
    both.1, both.2]
  simp only [Option.map_some, Option.getD_some, find?_addNew, List.nil_append, List.find?_append,
    Option.or_self]
  rw [declared, List.find?_map]
  rfl

/-- Nodes of one type that do not differ refer to the same nodes. -/
theorem references_of_compareNodes (are : types.ComparatorsAre (fun _ => True) fun _ => False)
    (names : types.NamesDistinct) (compares : types.ComparesCaptured) (alignment : Alignment)
    {old new : Node} (old_formed : old.Formed types) (new_formed : new.Formed types)
    (same_type : old.typeName = new.typeName)
    (distinct : ∀ entry ∈ new.state.entries, entry.2.KeysDistinct)
    (same : compareNodes types alignment (some old) (some new) = []) :
    target ∈ old.state.references ↔ target ∈ new.state.references := by
  obtain ⟨managed, member, old_type, -, old_declared⟩ := old_formed.registered names
  obtain ⟨other, -, new_type, -, new_declared⟩ := new_formed.registered names
  obtain rfl : managed = other := by
    rw [← same_type, old_type, Option.some.injEq] at new_type
    exact new_type
  have unchanged (name : String)
      (captured : ∃ property ∈ managed.properties, property.name = name ∧
        ¬ (types.classify property.type).isIgnored) :
      target ∈ (old.state.get name).references ↔ target ∈ (new.state.get name).references := by
    obtain ⟨property, property_mem, rfl, kept⟩ := captured
    have declared : (managed.property? property.name).isSome :=
      List.find?_isSome.mpr ⟨property, property_mem, beq_self_eq_true property.name⟩
    obtain ⟨first, first_found⟩ := Option.isSome_iff_exists.mp declared
    have compared : (comparedProperties types (some old) (some new)).find?
          (fun candidate => candidate.1 == property.name) =
        some (first.name, types.classify first.type) := by
      rw [find?_comparedProperties old_type new_type, first_found, Option.map_some]
    have first_named : first.name = property.name := by simpa using List.find?_some first_found
    have compared_mem := List.mem_of_find?_eq_some compared
    rw [compareNodes_eq types alignment rfl, List.filterMap_eq_nil_iff] at same
    have same_value := same _ compared_mem
    rw [propertyChange, Option.map_eq_none_iff, first_named] at same_value
    exact references_of_compareValues (TypeTable.classify_comparatorsAre are first.type)
      (compares managed member property property_mem kept first first_found) alignment
      (State.keysDistinct_get distinct property.name) same_value
  rw [State.mem_references_iff old_formed.distinct, State.mem_references_iff new_formed.distinct]
  constructor
  · rintro ⟨name, stored, refers⟩
    have new_refers := (unchanged name (old_declared name stored)).mp refers
    exact ⟨name, State.mem_names_of_mem_references new_refers, new_refers⟩
  · rintro ⟨name, stored, refers⟩
    have old_refers := (unchanged name (new_declared name stored)).mpr refers
    exact ⟨name, State.mem_names_of_mem_references old_refers, old_refers⟩

end Properties

end Comparison
end AuditTrail
