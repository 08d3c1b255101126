import AuditTrail.Proofs.Schema.Registry

/-!
# Names of managed types

An accepted registry defines no class twice and shows no type name twice, so either name of a
managed type leads back to it.
-/

namespace AuditTrail.Schema.TypeTable

/-- Managed types are told apart by their classes and by their shown names. -/
structure NamesDistinct (types : TypeTable) : Prop where
  /-- No two of them have one class. -/
  classes : (types.managed.map ManagedType.className).Nodup
  /-- No two of them have one shown name. -/
  shown : (types.managed.map ManagedType.typeName).Nodup

variable {types : TypeTable} {managed : ManagedType}

theorem NamesDistinct.managedOf? (distinct : types.NamesDistinct)
    (member : managed ∈ types.managed) : types.managedOf? managed.className = some managed :=
  find?_key_of_nodup distinct.classes member

theorem NamesDistinct.managedByName? (distinct : types.NamesDistinct)
    (member : managed ∈ types.managed) :
    types.managedByName? managed.typeName = some managed :=
  find?_key_of_nodup distinct.shown member

/-- In the table of an accepted registry all names are distinct. -/
theorem namesDistinct_ofDefinitions {definitions : List Definition}
    (accepted : ofDefinitions definitions = .ok types) : types.NamesDistinct := by
  obtain ⟨acceptable, rfl⟩ := ofDefinitions_eq_ok_iff.mp accepted
  have orderly := (acceptable_iff.mp acceptable).1
  exact ⟨orderly.nodup_managed, orderly.nodup_shown⟩

end AuditTrail.Schema.TypeTable
