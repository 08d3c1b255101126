import AuditTrail.Proofs.Schema.Names

/-!
# What acceptance grants

An accepted registry ignores no managed class, and maps the identity property of every entity with
a type that is not ignored.
-/

namespace AuditTrail.Schema.TypeTable

variable {types : TypeTable} {managed : ManagedType} {definitions : List Definition}

/-- An accepted registry ignores no managed class. -/
theorem heeded_of_ofDefinitions (accepted : ofDefinitions definitions = .ok types)
    {className : String} (typed : types.managedOf? className = some managed) :
    ¬ types.isIgnored className := by
  obtain ⟨acceptable, rfl⟩ := ofDefinitions_eq_ok_iff.mp accepted
  by_cases defined : className ∈ definitions.map Definition.className
  · obtain ⟨definition, member, rfl⟩ := List.mem_map.mp defined
    rw [managedOf?_of_mem acceptable.classes member] at typed
    rw [isIgnored_of_mem acceptable.classes member]
    cases definition with
    | entity | valueObject => exact Bool.false_ne_true
    | value | ignored | custom => cases typed
  · exact (lookups_of_notMem defined).2.2.2

theorem not_isIgnored_of_identifies {type : Classified} (identifying : identifies type) :
    ¬ type.isIgnored := by
  cases type with
  | ignored => cases identifying
  | value | reference | collection | mapping | custom | unknown => exact Bool.false_ne_true

/-- An accepted registry maps the identity of an entity with a type that is not ignored. -/
theorem identity_of_ofDefinitions (accepted : ofDefinitions definitions = .ok types)
    (member : managed ∈ types.managed) {name : String}
    (identity : managed.idProperty = some name) :
    ∃ property ∈ managed.properties,
      property.name = name ∧ ¬ (types.classify property.type).isIgnored := by
  obtain ⟨acceptable, rfl⟩ := ofDefinitions_eq_ok_iff.mp accepted
  have orderly := (acceptable_iff.mp acceptable).1
  obtain ⟨definition, defined, given⟩ := List.mem_filterMap.mp member
  cases definition with
  | entity decl named =>
      obtain ⟨own, own_identity, -, rfl⟩ := ManagedType.ofEntity_eq_ok_iff.mp
        (Definition.managed?_entity_eq_some_iff.mp given)
      obtain rfl : own = name := Option.some.inj identity
      obtain ⟨other, property, other_identity, first, scalars⟩ :=
        acceptable.identified decl named defined
      obtain rfl := own_identity.unique other_identity
      refine ⟨⟨property.name, property.type⟩,
        List.mem_map_of_mem (List.mem_of_find?_eq_some first), by simpa using List.find?_some first,
        not_isIgnored_of_identifies ((orderly.identifies_classify_iff _).mpr scalars)⟩
  | valueObject =>
      obtain rfl := Option.some.inj given
      cases identity
  | value | ignored | custom => cases given

end AuditTrail.Schema.TypeTable
