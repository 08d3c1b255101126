import AuditTrail.Proofs.Except
import AuditTrail.Schema.TypeTable
import Mathlib

/-!
# Accepted registries

A registry is accepted exactly if no class is defined twice, no shown name is claimed twice, and
every entity has an identity property whose values are scalars.  The table of an accepted registry
lists what each definition comes to.  As names are distinct, it answers every question in the same
way in whatever order the definitions come.
-/

namespace AuditTrail.Schema

section Keys

variable {α β γ : Type} [BEq β] [LawfulBEq β] {key : α → β} {items others : List α}

/-- The first item with a key is the only one if keys are distinct. -/
theorem find?_key_of_nodup (distinct : (items.map key).Nodup) {item : α} (member : item ∈ items) :
    items.find? (fun other => key other == key item) = some item := by
  induction items with
  | nil => cases member
  | cons head rest induction =>
      obtain ⟨absent, rest_distinct⟩ := List.nodup_cons.mp distinct
      rcases List.mem_cons.mp member with rfl | later
      · simp
      · have other : ¬ (key head == key item) = true := by
          rw [beq_iff_eq]
          exact fun same => absent (same ▸ List.mem_map_of_mem later)
        rw [List.find?_cons_of_neg (p := fun other => key other == key item) other]
        exact induction rest_distinct later

/-- Items with distinct keys are found under their keys. -/
theorem find?_key_eq_some_iff (distinct : (items.map key).Nodup) {sought : β} {item : α} :
    items.find? (fun other => key other == sought) = some item ↔
      item ∈ items ∧ key item = sought := by
  constructor
  · intro found
    exact ⟨List.mem_of_find?_eq_some found, by simpa using List.find?_some found⟩
  · rintro ⟨member, rfl⟩
    exact find?_key_of_nodup distinct member

/-- What is found under distinct keys does not depend on the order of the items. -/
theorem find?_key_perm (distinct : (items.map key).Nodup) (perm : items.Perm others) (sought : β) :
    items.find? (fun item => key item == sought) = others.find? fun item => key item == sought := by
  ext item
  rw [find?_key_eq_some_iff distinct,
    find?_key_eq_some_iff ((perm.map key).nodup_iff.mp distinct), perm.mem_iff]

omit [BEq β] [LawfulBEq β] in
/-- Parts of items that keep the keys of the items have some of these keys, in order. -/
theorem map_filterMap_sublist {part : α → Option γ} {name : γ → β} (items : List α)
    (keeps : ∀ item found, part item = some found → name found = key item) :
    ((items.filterMap part).map name).Sublist (items.map key) := by
  induction items with
  | nil => exact .slnil
  | cons item rest induction =>
      cases found : part item with
      | none =>
          rw [List.filterMap_cons_none found]
          exact induction.cons _
      | some first =>
          rw [List.filterMap_cons_some found, List.map_cons, keeps item first found]
          exact induction.cons_cons _

end Keys

/-- The entity names its identity property, or names none and flags exactly one. -/
def ObjectDecl.Identity (decl : ObjectDecl) (named : Option String) (name : String) : Prop :=
  named = some name ∨ named = none ∧ decl.flagged = [name]

theorem ManagedType.identityOf_eq_ok_iff {decl : ObjectDecl} {named : Option String}
    {name : String} : identityOf decl named = .ok name ↔ decl.Identity named name := by
  unfold identityOf ObjectDecl.Identity
  cases named with
  | some => simp
  | none =>
      cases flagged : decl.flagged with
      | nil => simp
      | cons first rest => cases rest <;> simp

/-- An entity has at most one identity property. -/
theorem ObjectDecl.Identity.unique {decl : ObjectDecl} {named : Option String}
    {name other : String} (identity : decl.Identity named name)
    (other_identity : decl.Identity named other) : name = other :=
  Except.ok.inj ((ManagedType.identityOf_eq_ok_iff.mpr identity).symm.trans
    (ManagedType.identityOf_eq_ok_iff.mpr other_identity))

/-- The managed type of an entity with a given identity property. -/
def ManagedType.entityOf (decl : ObjectDecl) (name : String) : ManagedType where
  className := decl.className
  typeName := decl.shownName
  kind := .entity
  idProperty := some name
  properties := mappedProperties decl

/-- An entity has a managed type if its identity property is declared and not left out. -/
theorem ManagedType.ofEntity_eq_ok_iff {decl : ObjectDecl} {named : Option String}
    {managed : ManagedType} :
    ofEntity decl named = .ok managed ↔
      ∃ name, decl.Identity named name ∧
        (decl.mapped.find? fun property => property.name == name).isSome ∧
          managed = entityOf decl name := by
  simp only [ofEntity, bind_eq_ok_iff, identityOf_eq_ok_iff]
  refine exists_congr fun name => and_congr_right fun _ => ?_
  have mapped : ((mappedProperties decl).any fun property => property.name == name) =
      (decl.mapped.find? fun property => property.name == name).isSome := by
    rw [mappedProperties, List.any_map, List.isSome_find?]
    rfl
  rw [mapped]
  split
  next declared => simp [declared, entityOf, eq_comm]
  next undeclared => simp [undeclared]

namespace Definition

/-- Whether the definition is that of a value class. -/
def isValue : Definition → Bool
  | value _ _ => true
  | _ => false

/-- The shown name of a managed class. -/
def shownName? : Definition → Option String
  | entity decl _ | valueObject decl => some decl.shownName
  | value _ _ | ignored _ | custom _ _ => none

/-- The managed type that a definition comes to, if it comes to one. -/
def managed? : Definition → Option ManagedType
  | entity decl named => (ManagedType.ofEntity decl named).toOption
  | valueObject decl => some (.ofValueObject decl)
  | value _ _ | ignored _ | custom _ _ => none

/-- The class and the rule of a value definition. -/
def value? : Definition → Option (String × Option ValueRule)
  | value className rule => some (className, rule)
  | _ => none

/-- The class and the rule of a custom definition. -/
def custom? : Definition → Option (String × CustomRule)
  | custom className rule => some (className, rule)
  | _ => none

/-- The class of a definition that ignores it. -/
def ignored? : Definition → Option String
  | ignored className => some className
  | _ => none

variable {definition : Definition} {managed : ManagedType}

theorem managed?_entity_eq_some_iff {decl : ObjectDecl} {named : Option String} :
    (entity decl named).managed? = some managed ↔ ManagedType.ofEntity decl named = .ok managed :=
  mem_toOption_iff

theorem names_of_managed? (found : definition.managed? = some managed) :
    managed.className = definition.className ∧ definition.shownName? = some managed.typeName := by
  cases definition with
  | entity decl named =>
      obtain ⟨_, -, -, rfl⟩ :=
        ManagedType.ofEntity_eq_ok_iff.mp (managed?_entity_eq_some_iff.mp found)
      exact ⟨rfl, rfl⟩
  | valueObject decl =>
      obtain rfl := Option.some.inj found
      exact ⟨rfl, rfl⟩
  | value | ignored | custom => cases found

theorem className_of_value? {entry : String × Option ValueRule}
    (found : definition.value? = some entry) : entry.1 = definition.className := by
  cases definition <;> cases found
  rfl

theorem className_of_custom? {entry : String × CustomRule}
    (found : definition.custom? = some entry) : entry.1 = definition.className := by
  cases definition <;> cases found
  rfl

theorem className_of_ignored? {className : String}
    (found : definition.ignored? = some className) : className = definition.className := by
  cases definition <;> cases found
  rfl

end Definition

/-- The values of a declared type are scalars: it is a built-in type, or a class that no definition
makes anything but a value class. -/
def HoldsScalars (definitions : List Definition) : TypeExpr → Prop
  | .named name => name ∈ TypeTable.builtIn ∨
      ∀ definition ∈ definitions, definition.className = name → definition.isValue
  | .list _ | .set _ | .array _ | .map _ _ => False

/-- A registry without a fault. -/
structure Acceptable (definitions : List Definition) : Prop where
  /-- No class is defined twice. -/
  classes : (definitions.map Definition.className).Nodup
  /-- No shown name is claimed twice. -/
  shown : (definitions.filterMap Definition.shownName?).Nodup
  /-- Every entity has an identity property, which is declared and not left out, and which is first
  declared with a type of scalars. -/
  identified : ∀ decl named, .entity decl named ∈ definitions → ∃ name property,
    decl.Identity named name ∧
      decl.mapped.find? (fun property => property.name == name) = some property ∧
        HoldsScalars definitions property.type

/-- The order of definitions does not matter to whether they have a fault. -/
theorem Acceptable.perm {definitions others : List Definition}
    (acceptable : Acceptable definitions) (perm : definitions.Perm others) : Acceptable others where
  classes := (perm.map _).nodup_iff.mp acceptable.classes
  shown := (perm.filterMap _).nodup_iff.mp acceptable.shown
  identified decl named member := by
    obtain ⟨name, property, identity, first, scalars⟩ :=
      acceptable.identified decl named (perm.mem_iff.mpr member)
    refine ⟨name, property, identity, first, ?_⟩
    cases declared : property.type with
    | named className =>
        rw [declared] at scalars
        exact scalars.imp_right fun values definition member =>
          values definition (perm.mem_iff.mpr member)
    | list | set | array | map => rw [declared] at scalars; exact scalars

namespace TypeTable

/-- The table that lists what each definition comes to. -/
def listing (definitions : List Definition) : TypeTable where
  managed := definitions.filterMap Definition.managed?
  values := definitions.filterMap Definition.value?
  customs := definitions.filterMap Definition.custom?
  ignored := definitions.filterMap Definition.ignored?

/-- Definitions that can be added one after another. -/
structure Orderly (definitions : List Definition) : Prop where
  /-- No class is defined twice. -/
  classes : (definitions.map Definition.className).Nodup
  /-- No shown name is claimed twice. -/
  shown : (definitions.filterMap Definition.shownName?).Nodup
  /-- Every entity has an identity property that is declared and not left out. -/
  made : ∀ decl named, .entity decl named ∈ definitions →
    ∃ managed, ManagedType.ofEntity decl named = .ok managed

theorem orderly_nil : Orderly [] := ⟨.nil, .nil, fun _ _ member => nomatch member⟩

/-- A definition can be added after others if its class and its shown name are new and its identity
property, if it is to have one, is there. -/
theorem orderly_append_iff {earlier : List Definition} {definition : Definition} :
    Orderly (earlier ++ [definition]) ↔
      Orderly earlier ∧ definition.className ∉ earlier.map Definition.className ∧
        (∀ shown ∈ definition.shownName?, shown ∉ earlier.filterMap Definition.shownName?) ∧
          ∀ decl named, definition = .entity decl named →
            ∃ managed, ManagedType.ofEntity decl named = .ok managed := by
  constructor
  · rintro ⟨classes, shown, made⟩
    rw [List.map_append, List.map_singleton, List.nodup_append'] at classes
    rw [List.filterMap_append, List.nodup_append'] at shown
    refine ⟨⟨classes.1, shown.1, fun decl named member => ?_⟩, fun taken => ?_,
      fun name given claimed => ?_, fun decl named same => ?_⟩
    · exact made decl named (List.mem_append_left _ member)
    · exact classes.2.2 taken (List.mem_singleton_self _)
    · exact shown.2.2 claimed
        (List.mem_filterMap.mpr ⟨definition, List.mem_singleton_self _, given⟩)
    · exact made decl named (List.mem_append_right _ (List.mem_singleton.mpr same.symm))
  · rintro ⟨⟨classes, shown, made⟩, fresh, unclaimed, own⟩
    refine ⟨?_, ?_, fun decl named member => ?_⟩
    · rw [List.map_append, List.map_singleton]
      exact classes.append (List.nodup_singleton _) (List.disjoint_singleton.mpr fresh)
    · rw [List.filterMap_append]
      cases given : definition.shownName? with
      | none => rwa [List.filterMap_cons_none given, List.filterMap_nil, List.append_nil]
      | some name =>
          rw [List.filterMap_cons_some given, List.filterMap_nil]
          exact shown.append (List.nodup_singleton _)
            (List.disjoint_singleton.mpr (unclaimed name given))
    · rcases List.mem_append.mp member with before | here
      · exact made decl named before
      · exact own decl named (List.mem_singleton.mp here).symm

variable {definitions : List Definition} {definition : Definition} {className : String}

section Lookups

variable (classes : (definitions.map Definition.className).Nodup)

include classes

/-- Under the class of a definition its own part is found. -/
theorem find?_part_of_mem {α : Type} {part : Definition → Option α} {name : α → String}
    (keeps : ∀ definition found, part definition = some found → name found = definition.className)
    (member : definition ∈ definitions) :
    (definitions.filterMap part).find? (fun other => name other == definition.className) =
      part definition := by
  have distinct := (map_filterMap_sublist definitions keeps).nodup classes
  ext found
  rw [find?_key_eq_some_iff distinct, List.mem_filterMap]
  constructor
  · rintro ⟨⟨other, other_mem, given⟩, named⟩
    have same : other = definition := List.inj_on_of_nodup_map classes other_mem member
      ((keeps other found given).symm.trans named)
    exact same ▸ given
  · intro given
    exact ⟨⟨definition, member, given⟩, keeps definition found given⟩

theorem managedOf?_of_mem (member : definition ∈ definitions) :
    (listing definitions).managedOf? definition.className = definition.managed? :=
  find?_part_of_mem classes (fun _ _ found => (Definition.names_of_managed? found).1) member

theorem valueOf?_of_mem (member : definition ∈ definitions) :
    (listing definitions).valueOf? definition.className = definition.value?.map Prod.snd :=
  congrArg (Option.map Prod.snd)
    (find?_part_of_mem classes (fun _ _ => Definition.className_of_value?) member)

theorem customOf?_of_mem (member : definition ∈ definitions) :
    (listing definitions).customOf? definition.className = definition.custom?.map Prod.snd :=
  congrArg (Option.map Prod.snd)
    (find?_part_of_mem classes (fun _ _ => Definition.className_of_custom?) member)

theorem isIgnored_of_mem (member : definition ∈ definitions) :
    (listing definitions).isIgnored definition.className = definition.ignored?.isSome := by
  rw [Bool.eq_iff_iff, isIgnored, List.contains_iff_mem, listing, List.mem_filterMap,
    Option.isSome_iff_exists]
  constructor
  · rintro ⟨other, other_mem, given⟩
    have same : other = definition := List.inj_on_of_nodup_map classes other_mem member
      (Definition.className_of_ignored? given).symm
    exact ⟨_, same ▸ given⟩
  · rintro ⟨className, given⟩
    refine ⟨definition, member, ?_⟩
    rw [given, Definition.className_of_ignored? given]

end Lookups

/-- Nothing is found under a class without a definition. -/
theorem find?_part_of_notMem {α : Type} {part : Definition → Option α} {name : α → String}
    (keeps : ∀ definition found, part definition = some found → name found = definition.className)
    (absent : className ∉ definitions.map Definition.className) :
    (definitions.filterMap part).find? (fun other => name other == className) = none := by
  refine List.find?_eq_none.mpr fun found given named => absent ?_
  rw [← beq_iff_eq.mp named]
  exact (map_filterMap_sublist definitions keeps).subset (List.mem_map_of_mem given)

/-- A class without a definition is none that the table knows of. -/
theorem lookups_of_notMem (absent : className ∉ definitions.map Definition.className) :
    (listing definitions).managedOf? className = none ∧
      (listing definitions).valueOf? className = none ∧
        (listing definitions).customOf? className = none ∧
          ¬ (listing definitions).isIgnored className := by
  refine ⟨?_, Option.map_eq_none_iff.mpr ?_, Option.map_eq_none_iff.mpr ?_, ?_⟩
  · exact find?_part_of_notMem (fun _ _ found => (Definition.names_of_managed? found).1) absent
  · exact find?_part_of_notMem (fun _ _ => Definition.className_of_value?) absent
  · exact find?_part_of_notMem (fun _ _ => Definition.className_of_custom?) absent
  · intro ignored
    obtain ⟨definition, member, given⟩ :=
      List.mem_filterMap.mp (List.contains_iff_mem.mp ignored)
    rw [Definition.className_of_ignored? given] at absent
    exact absent (List.mem_map_of_mem member)

/-- A class with a definition is in the table. -/
theorem Orderly.declares_of_mem (orderly : Orderly definitions)
    (member : definition ∈ definitions) :
    (listing definitions).declares definition.className := by
  rw [declares, managedOf?_of_mem orderly.classes member, valueOf?_of_mem orderly.classes member,
    customOf?_of_mem orderly.classes member, isIgnored_of_mem orderly.classes member]
  cases definition with
  | entity decl named =>
      obtain ⟨managed, made⟩ := orderly.made decl named member
      rw [Definition.managed?_entity_eq_some_iff.mpr made]
      rfl
  | valueObject | value | ignored | custom => rfl

theorem declares_of_notMem (absent : className ∉ definitions.map Definition.className) :
    ¬ (listing definitions).declares className := by
  obtain ⟨unmanaged, no_value, no_custom, heeded⟩ := lookups_of_notMem absent
  simp [declares, unmanaged, no_value, no_custom, heeded]

theorem listing_append (definitions : List Definition) (definition : Definition) :
    listing (definitions ++ [definition]) =
      ⟨(listing definitions).managed ++ definition.managed?.toList,
        (listing definitions).values ++ definition.value?.toList,
        (listing definitions).customs ++ definition.custom?.toList,
        (listing definitions).ignored ++ definition.ignored?.toList⟩ := by
  have last {α : Type} (part : Definition → Option α) :
      [definition].filterMap part = (part definition).toList := by
    cases given : part definition <;> simp [given]
  simp only [listing, List.filterMap_append, last]

/-- The managed types have the shown names of the definitions. -/
theorem Orderly.typeNames_eq (orderly : Orderly definitions) :
    (listing definitions).managed.map ManagedType.typeName =
      definitions.filterMap Definition.shownName? := by
  rw [listing, List.map_filterMap]
  refine List.filterMap_congr fun definition member => ?_
  cases definition with
  | entity decl named =>
      obtain ⟨managed, made⟩ := orderly.made decl named member
      have given := Definition.managed?_entity_eq_some_iff.mpr made
      rw [given, (Definition.names_of_managed? given).2]
      rfl
  | valueObject | value | ignored | custom => rfl

/-- A managed type of a new class is added if its shown name is new. -/
theorem Orderly.addManaged_eq_ok_iff (orderly : Orderly definitions)
    (fresh : definition.className ∉ definitions.map Definition.className) {managed : ManagedType}
    (given : definition.managed? = some managed) {next : TypeTable} :
    (listing definitions).addManaged managed = .ok next ↔
      Orderly (definitions ++ [definition]) ∧ next = listing (definitions ++ [definition]) := by
  have shown := (Definition.names_of_managed? given).2
  have claimed_iff : (∃ first, (listing definitions).managedByName? managed.typeName = some first) ↔
      managed.typeName ∈ definitions.filterMap Definition.shownName? := by
    rw [← orderly.typeNames_eq, managedByName?, ← Option.isSome_iff_exists, List.find?_isSome,
      List.mem_map]
    simp only [beq_iff_eq]
  unfold addManaged
  split
  next first claimed =>
    refine iff_of_false nofun fun grown => ?_
    exact (orderly_append_iff.mp grown.1).2.2.1 _ shown (claimed_iff.mp ⟨first, claimed⟩)
  next unclaimed =>
    have extended : listing (definitions ++ [definition]) =
        { listing definitions with managed := (listing definitions).managed ++ [managed] } := by
      rw [listing_append, given]
      cases definition with
      | entity | valueObject => simp [Definition.value?, Definition.custom?, Definition.ignored?]
      | value | ignored | custom => cases given
    have grown : Orderly (definitions ++ [definition]) := by
      refine orderly_append_iff.mpr ⟨orderly, fresh, fun name same taken => ?_, ?_⟩
      · obtain rfl := Option.some.inj (shown.symm.trans same)
        obtain ⟨first, claimed⟩ := claimed_iff.mpr taken
        rw [unclaimed] at claimed
        cases claimed
      · rintro decl named rfl
        exact ⟨managed, Definition.managed?_entity_eq_some_iff.mp given⟩
    rw [and_iff_right grown, extended, Except.ok.injEq, eq_comm]

/-- A definition is added if it can be, and the table then lists it too. -/
theorem Orderly.add_eq_ok_iff (orderly : Orderly definitions) {next : TypeTable} :
    (listing definitions).add definition = .ok next ↔
      Orderly (definitions ++ [definition]) ∧ next = listing (definitions ++ [definition]) := by
  by_cases known : definition.className ∈ definitions.map Definition.className
  · obtain ⟨other, member, same⟩ := List.mem_map.mp known
    have declared := orderly.declares_of_mem member
    rw [add.eq_def, if_pos (same ▸ declared)]
    exact iff_of_false nofun fun grown => (orderly_append_iff.mp grown.1).2.1 known
  · rw [add.eq_def, if_neg (declares_of_notMem known)]
    cases definition with
    | entity decl named =>
        rw [bind_eq_ok_iff]
        constructor
        · rintro ⟨managed, made, added⟩
          exact (orderly.addManaged_eq_ok_iff known
            (Definition.managed?_entity_eq_some_iff.mpr made)).mp added
        · intro grown
          obtain ⟨managed, made⟩ := (orderly_append_iff.mp grown.1).2.2.2 decl named rfl
          exact ⟨managed, made, (orderly.addManaged_eq_ok_iff known
            (Definition.managed?_entity_eq_some_iff.mpr made)).mpr grown⟩
    | valueObject decl => exact orderly.addManaged_eq_ok_iff known rfl
    | value className rule | ignored className | custom className rule =>
        have grown := orderly_append_iff.mpr ⟨orderly, known, nofun, nofun⟩
        rw [and_iff_right grown, listing_append, eq_comm]
        simp [Definition.managed?, Definition.value?, Definition.custom?, Definition.ignored?]

/-- Definitions that come first can be added first. -/
theorem Orderly.left {rest : List Definition} (orderly : Orderly (definitions ++ rest)) :
    Orderly definitions where
  classes := ((List.sublist_append_left definitions rest).map _).nodup orderly.classes
  shown := ((List.sublist_append_left definitions rest).filterMap _).nodup orderly.shown
  made decl named member := orderly.made decl named (List.mem_append_left rest member)

/-- Definitions are added one after another if they can be, and the table then lists them. -/
theorem Orderly.addAll_eq_ok_iff {rest : List Definition} (orderly : Orderly definitions)
    {next : TypeTable} :
    (listing definitions).addAll rest = .ok next ↔
      Orderly (definitions ++ rest) ∧ next = listing (definitions ++ rest) := by
  induction rest generalizing definitions with
  | nil =>
      rw [addAll, List.append_nil, and_iff_right orderly, Except.ok.injEq, eq_comm]
  | cons definition rest induction =>
      rw [addAll, bind_eq_ok_iff, List.append_cons]
      constructor
      · rintro ⟨table, added, others⟩
        obtain ⟨grown, rfl⟩ := orderly.add_eq_ok_iff.mp added
        exact (induction grown).mp others
      · intro grown
        have first : Orderly (definitions ++ [definition]) := grown.1.left
        exact ⟨_, orderly.add_eq_ok_iff.mpr ⟨first, rfl⟩, (induction first).mpr grown⟩

/-- A declared type is classified as one that identifies if its values are scalars. -/
theorem Orderly.identifies_classify_iff (orderly : Orderly definitions) (type : TypeExpr) :
    identifies ((listing definitions).classify type) ↔ HoldsScalars definitions type := by
  cases type with
  | list | set | array | map => simp [classify, identifies, HoldsScalars]
  | named name =>
      rw [classify, classifyName, HoldsScalars]
      by_cases built_in : name ∈ builtIn
      · simp [built_in, identifies]
      rw [if_neg (by simpa using built_in), or_iff_right built_in]
      by_cases defined : name ∈ definitions.map Definition.className
      · obtain ⟨definition, member, rfl⟩ := List.mem_map.mp defined
        have alone : (∀ other ∈ definitions, other.className = definition.className →
            other.isValue) ↔ definition.isValue := by
          refine ⟨fun values => values definition member rfl, fun is_value other other_mem same => ?_⟩
          rwa [List.inj_on_of_nodup_map orderly.classes other_mem member same]
        rw [alone, managedOf?_of_mem orderly.classes member,
          valueOf?_of_mem orderly.classes member, customOf?_of_mem orderly.classes member,
          isIgnored_of_mem orderly.classes member]
        cases definition with
        | entity decl named =>
            obtain ⟨managed, made⟩ := orderly.made decl named member
            rw [Definition.managed?_entity_eq_some_iff.mpr made]
            exact Iff.rfl
        | valueObject | value | ignored | custom => exact Iff.rfl
      · obtain ⟨unmanaged, no_value, no_custom, heeded⟩ := lookups_of_notMem defined
        rw [unmanaged, no_value, no_custom, if_neg heeded]
        refine iff_of_true rfl fun other member same => ?_
        exact absurd (List.mem_map.mpr ⟨other, member, same⟩) defined

/-- The identity property of an entity is checked by its first declaration. -/
theorem Orderly.checkIdentity_entityOf_iff (orderly : Orderly definitions) {decl : ObjectDecl}
    {name : String} {property : PropertyDecl}
    (first : decl.mapped.find? (fun property => property.name == name) = some property) :
    (listing definitions).checkIdentity (.entityOf decl name) = .ok () ↔
      HoldsScalars definitions property.type := by
  have found : (ManagedType.entityOf decl name).property? name =
      some ⟨property.name, property.type⟩ := by
    rw [ManagedType.property?, ManagedType.entityOf, ManagedType.mappedProperties, List.find?_map]
    exact congrArg (Option.map _) first
  have identity : (ManagedType.entityOf decl name).idProperty = some name := rfl
  simp only [checkIdentity, identity, found, ← orderly.identifies_classify_iff]
  split <;> simp_all

/-- The identity properties of managed types pass if each of them does. -/
theorem checkIdentities_eq_ok_iff {table : TypeTable} {all : List ManagedType} :
    table.checkIdentities all = .ok () ↔
      ∀ managed ∈ all, table.checkIdentity managed = .ok () := by
  induction all with
  | nil => exact iff_of_true rfl fun _ member => nomatch member
  | cons managed rest induction =>
      rw [checkIdentities, bind_eq_ok_iff, List.forall_mem_cons, induction]
      exact ⟨fun ⟨_, first, others⟩ => ⟨first, others⟩, fun ⟨first, others⟩ => ⟨_, first, others⟩⟩

/-- A registry has no fault if its definitions can be added and the identity properties pass. -/
theorem acceptable_iff :
    Acceptable definitions ↔ Orderly definitions ∧
      ∀ managed ∈ (listing definitions).managed,
        (listing definitions).checkIdentity managed = .ok () := by
  constructor
  · intro acceptable
    have orderly : Orderly definitions := by
      refine ⟨acceptable.classes, acceptable.shown, fun decl named member => ?_⟩
      obtain ⟨name, property, identity, first, -⟩ := acceptable.identified decl named member
      exact ⟨_, ManagedType.ofEntity_eq_ok_iff.mpr
        ⟨name, identity, Option.isSome_of_eq_some first, rfl⟩⟩
    refine ⟨orderly, fun managed listed => ?_⟩
    obtain ⟨definition, member, given⟩ := List.mem_filterMap.mp listed
    cases definition with
    | entity decl named =>
        obtain ⟨name, identity, -, rfl⟩ := ManagedType.ofEntity_eq_ok_iff.mp
          (Definition.managed?_entity_eq_some_iff.mp given)
        obtain ⟨other, property, other_identity, first, scalars⟩ :=
          acceptable.identified decl named member
        obtain rfl := identity.unique other_identity
        exact (orderly.checkIdentity_entityOf_iff first).mpr scalars
    | valueObject =>
        obtain rfl := Option.some.inj given
        rfl
    | value | ignored | custom => cases given
  · rintro ⟨orderly, checked⟩
    refine ⟨orderly.classes, orderly.shown, fun decl named member => ?_⟩
    obtain ⟨managed, made⟩ := orderly.made decl named member
    have listed : managed ∈ (listing definitions).managed :=
      List.mem_filterMap.mpr ⟨_, member, Definition.managed?_entity_eq_some_iff.mpr made⟩
    obtain ⟨name, identity, declared, rfl⟩ := ManagedType.ofEntity_eq_ok_iff.mp made
    obtain ⟨property, first⟩ := Option.isSome_iff_exists.mp declared
    exact ⟨name, property, identity, first,
      (orderly.checkIdentity_entityOf_iff first).mp (checked _ listed)⟩

/-- A registry is accepted exactly if it has no fault, and its table lists its definitions. -/
theorem ofDefinitions_eq_ok_iff {table : TypeTable} :
    ofDefinitions definitions = .ok table ↔
      Acceptable definitions ∧ table = listing definitions := by
  have added {next : TypeTable} : empty.addAll definitions = .ok next ↔
      Orderly definitions ∧ next = listing definitions := orderly_nil.addAll_eq_ok_iff
  rw [ofDefinitions, bind_eq_ok_iff, acceptable_iff, ← checkIdentities_eq_ok_iff]
  constructor
  · rintro ⟨next, adds, checks⟩
    obtain ⟨orderly, rfl⟩ := added.mp adds
    obtain ⟨_, checked, same⟩ := bind_eq_ok_iff.mp checks
    exact ⟨⟨orderly, checked⟩, (Except.ok.inj same).symm⟩
  · rintro ⟨⟨orderly, checked⟩, rfl⟩
    exact ⟨_, added.mpr ⟨orderly, rfl⟩, bind_eq_ok_iff.mpr ⟨(), checked, rfl⟩⟩

/-- No two managed types have one class. -/
theorem Orderly.nodup_managed (orderly : Orderly definitions) :
    ((listing definitions).managed.map ManagedType.className).Nodup :=
  (map_filterMap_sublist definitions fun _ _ found =>
    (Definition.names_of_managed? found).1).nodup orderly.classes

/-- No two managed types have one shown name. -/
theorem Orderly.nodup_shown (orderly : Orderly definitions) :
    ((listing definitions).managed.map ManagedType.typeName).Nodup :=
  orderly.typeNames_eq ▸ orderly.shown

/-- Two tables answer every question about types alike. -/
structure Alike (table other : TypeTable) : Prop where
  /-- They have the same managed types of classes. -/
  managedOf? : ∀ className, table.managedOf? className = other.managedOf? className
  /-- They have the same managed types with shown names. -/
  managedByName? : ∀ typeName, table.managedByName? typeName = other.managedByName? typeName
  /-- They have the same value classes. -/
  valueOf? : ∀ className, table.valueOf? className = other.valueOf? className
  /-- They have the same custom classes. -/
  customOf? : ∀ className, table.customOf? className = other.customOf? className
  /-- They ignore the same classes. -/
  isIgnored : ∀ className, table.isIgnored className = other.isIgnored className

section Alike

variable {table other : TypeTable} (alike : Alike table other)

include alike

theorem Alike.managedType (className : String) :
    table.managedType className = other.managedType className := by
  rw [TypeTable.managedType, TypeTable.managedType, declares, declares, alike.managedOf?,
    alike.valueOf?, alike.customOf?, alike.isIgnored]

theorem Alike.classify (type : TypeExpr) : table.classify type = other.classify type := by
  induction type with
  | named name =>
      simp only [TypeTable.classify, classifyName, alike.managedOf?, alike.valueOf?,
        alike.customOf?, alike.isIgnored]
  | list _ induction | set _ induction | array _ induction =>
      simp only [TypeTable.classify, induction]
  | map _ _ keys values => simp only [TypeTable.classify, keys, values]

end Alike

/-- Tables that list the same definitions in another order answer alike. -/
theorem Orderly.alike (orderly : Orderly definitions) {others : List Definition}
    (perm : definitions.Perm others) : Alike (listing definitions) (listing others) where
  managedOf? className := find?_key_perm orderly.nodup_managed (perm.filterMap _) className
  managedByName? typeName := find?_key_perm orderly.nodup_shown (perm.filterMap _) typeName
  valueOf? className := by
    refine congrArg (Option.map Prod.snd) (find?_key_perm ?_ (perm.filterMap _) className)
    exact (map_filterMap_sublist definitions fun _ _ =>
      Definition.className_of_value?).nodup orderly.classes
  customOf? className := by
    refine congrArg (Option.map Prod.snd) (find?_key_perm ?_ (perm.filterMap _) className)
    exact (map_filterMap_sublist definitions fun _ _ =>
      Definition.className_of_custom?).nodup orderly.classes
  isIgnored className := by
    rw [Bool.eq_iff_iff, isIgnored, isIgnored, List.contains_iff_mem, List.contains_iff_mem]
    exact (perm.filterMap Definition.ignored?).mem_iff

/-- A registry is accepted exactly if it has no fault.  Under another order of its definitions it is
accepted too, and its table answers every question alike. -/
theorem acceptance_perm {definitions others : List Definition} (perm : definitions.Perm others) :
    ((∃ table, ofDefinitions definitions = .ok table) ↔ Acceptable definitions) ∧
      ((∃ table, ofDefinitions definitions = .ok table) ↔
        ∃ table, ofDefinitions others = .ok table) ∧
      ∀ table other, ofDefinitions definitions = .ok table → ofDefinitions others = .ok other →
        (∀ className, table.managedType className = other.managedType className) ∧
        (∀ typeName, table.managedByName? typeName = other.managedByName? typeName) ∧
        (∀ className, table.isIgnored className = other.isIgnored className) ∧
        ∀ type, table.classify type = other.classify type := by
  have accepts_iff (definitions : List Definition) :
      (∃ table, ofDefinitions definitions = .ok table) ↔ Acceptable definitions := by
    simp only [ofDefinitions_eq_ok_iff, exists_and_left, exists_eq, and_true]
  refine ⟨accepts_iff definitions, ?_, fun table other accepted other_accepted => ?_⟩
  · rw [accepts_iff, accepts_iff]
    exact ⟨fun acceptable => acceptable.perm perm, fun acceptable => acceptable.perm perm.symm⟩
  · obtain ⟨acceptable, rfl⟩ := ofDefinitions_eq_ok_iff.mp accepted
    obtain ⟨-, rfl⟩ := ofDefinitions_eq_ok_iff.mp other_accepted
    have alike := (acceptable_iff.mp acceptable).1.alike perm
    exact ⟨alike.managedType, alike.managedByName?, alike.isIgnored, alike.classify⟩

/-- The identity of users is a value class that is defined behind them or in front of them. -/
theorem acceptance_perm_reversed :
    let user : Definition :=
      .entity ⟨"User", none, [⟨"id", .named "UserId", true, false⟩], []⟩ none
    let badge : Definition := .valueObject ⟨"Badge", some "Sign", [], []⟩
    let userId : Definition := .value "UserId" none
    ∃ table other, ofDefinitions [user, badge, userId] = .ok table ∧
      ofDefinitions [userId, badge, user] = .ok other ∧ Acceptable [user, badge, userId] ∧
        table.managed ≠ other.managed ∧ ∀ type, table.classify type = other.classify type := by
  intro user badge userId
  have perm : [user, badge, userId].Perm [userId, badge, user] := (List.reverse_perm _).symm
  refine ⟨_, _, rfl, rfl, (acceptance_perm perm).1.mp ⟨_, rfl⟩, by decide, ?_⟩
  exact ((acceptance_perm perm).2.2 _ _ rfl rfl).2.2.2

end TypeTable

end AuditTrail.Schema
