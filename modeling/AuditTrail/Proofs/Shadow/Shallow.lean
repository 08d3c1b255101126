import AuditTrail.Proofs.Shadow.Reading
import AuditTrail.Proofs.Store.Versions

/-!
# Shallow shadows

A shallow shadow follows references to value objects only, so each of its instances stands for a
value object, but for the one of the entity that was asked for.  References to entities become null,
unless they lead back to that entity: it has an instance by then, and whether a reference is to be
followed is asked only where there is none.
-/

namespace AuditTrail

open Schema

section Reading

variable {σ : Type} [Store σ] {store : σ} {query : Query} {id : GlobalId} {snapshot : Snapshot}

/-- The live snapshot that a query finds of a node, if there is one that can be read. -/
def Store.found? (store : σ) (query : Query) (id : GlobalId) : Option Snapshot :=
  (Store.live? store id query).toOption.join

theorem Store.found?_eq_some_iff :
    Store.found? store query id = some snapshot ↔
      Store.live? store id query = .ok (some snapshot) := by
  rw [found?, Option.join_eq_some_iff]
  exact mem_toOption_iff

/-- A store in which what cannot be read is not there. -/
structure Lenient (σ : Type) where
  /-- The store that is read. -/
  store : σ

instance : Store (Lenient σ) where
  snapshotsOf lenient id query :=
    .ok ((Store.snapshotsOf lenient.store id query).toOption.getD [])
  persist lenient commit := (Store.persist lenient.store commit).map Lenient.mk
  head? lenient := Store.head? lenient.store
  lastSequence lenient := Store.lastSequence lenient.store
  metadata? lenient id := Store.metadata? lenient.store id
  snapshotCount lenient := Store.snapshotCount lenient.store

theorem live?_lenient (store : σ) (query : Query) (id : GlobalId) :
    Store.live? (Lenient.mk store) id query = .ok (Store.found? store query id) := by
  rw [Store.found?, Store.live?, Store.live?, Store.first?, Store.first?]
  cases answered : Store.snapshotsOf store id query with
  | error | ok =>
      simp only [Store.snapshotsOf, answered]
      rfl

/-- Reading leniently finds what is read at all. -/
theorem refines_lenient (store : σ) (query : Query) (id : GlobalId) :
    Refines (Store.live? store id query) (Store.live? (Lenient.mk store) id query) := by
  intro found live
  rw [live?_lenient, Store.found?, live]
  rfl

end Reading

namespace Backend

variable {backend : Backend}

theorem Sound.id_of_live? (sound : backend.Sound) {query : Query} {id : GlobalId}
    {snapshot : Snapshot} (live : Store.live? backend id query = .ok (some snapshot)) :
    snapshot.id = id ∧ id ∈ backend.ids := by
  obtain ⟨newest, first, kept⟩ := bind_eq_ok_iff.mp live
  obtain ⟨rfl, -⟩ := Option.filter_eq_some_iff.mp (Except.ok.inj kept)
  exact sound.of_mem_found (mem_found_of_first? first)

/-- Read leniently, a sound backend is a source of shadows. -/
theorem Sound.source (sound : backend.Sound) (query : Query) :
    Shadow.Source (Lenient.mk backend) query (Store.found? backend query) where
  answers id := live?_lenient backend query id
  named _ _ found := (sound.id_of_live? (Store.found?_eq_some_iff.mp found)).1
  counted := by
    refine ⟨backend.ids, backend.length_ids_le, fun id found => ?_⟩
    obtain ⟨snapshot, found⟩ := Option.isSome_iff_exists.mp found
    exact (sound.id_of_live? (Store.found?_eq_some_iff.mp found)).2

/-- Offered commits leave a sound backend sound, taken or not. -/
theorem Sound.offerAll (sound : backend.Sound) (commits : List Commit) :
    (Store.offerAll backend commits).Sound :=
  Store.offerAll_induction (motive := fun (backend : Backend) _ => backend.Sound) sound
    (fun sound persisted => (Sound.stored sound persisted).sound) commits

end Backend

namespace Shadow

section Rebuilt

variable {types : TypeTable} {live? : GlobalId → Option Snapshot} {root id : GlobalId}
  {names : List GlobalId} {link : GlobalId → Option Slot} {heap : Heap} {snapshot : Snapshot}

/-- An instance has the settled properties of its snapshot, carried over to slots. -/
theorem instanceOf_eq (types : TypeTable) (link : GlobalId → Option Slot) (snapshot : Snapshot) :
    instanceOf types link snapshot =
      ⟨classOf types snapshot, carry link (settled snapshot.state.entries)⟩ := by
  have properties : (instanceOf types link snapshot).properties =
      carry link (settled snapshot.state.entries) := by
    rw [instanceOf, Instance.properties_eq, carry, settled_map]
    rfl
  rw [← properties, ← Instance.className_ofList (classOf types snapshot)]
  rfl

/-- Only value objects are led to from the root of a shallow shadow. -/
theorem Linked.root_or_isValueObject (linked : Linked .shallow live? root id) :
    id = root ∨ id.isValueObject := by
  cases linked with
  | root => exact .inl rfl
  | step _ _ _ leads => exact .inr (leads.1.resolve_left nofun)

/-- At the slot of a node stands the instance of its live snapshot. -/
theorem Rebuilt.get?_of_live {scope : ShadowScope}
    (rebuilt : Rebuilt types scope live? root names link heap) {slot : Slot}
    (named : names[slot]? = some id) (live : live? id = some snapshot) :
    heap.get? slot = some (instanceOf types link snapshot) := by
  obtain ⟨other, other_live, stands⟩ := rebuilt.get?_eq slot id named
  rwa [Option.some.inj (live.symm.trans other_live)]

/-- A reference of an instance comes from a settled property of its node's live snapshot. -/
theorem Rebuilt.of_reference {scope : ShadowScope}
    (rebuilt : Rebuilt types scope live? root names link heap)
    {object : Instance} (member : object ∈ heap.instances) {property : String × Live}
    (set : property ∈ object.properties) {slot : Slot} (refers : slot ∈ property.2.references) :
    ∃ owner ∈ names, ∃ snapshot, live? owner = some snapshot ∧
      ∃ setting ∈ settled snapshot.state.entries, ∃ target ∈ setting.2.references,
        names[slot]? = some target := by
  obtain ⟨place, stands⟩ := List.mem_iff_getElem?.mp member
  have below : place < names.length := by
    rw [← rebuilt.size]
    exact (List.getElem?_eq_some_iff.mp stands).1
  have named : names[place]? = some names[place] := List.getElem?_eq_getElem below
  obtain ⟨snapshot, live, instance_eq⟩ := rebuilt.get?_eq place _ named
  obtain rfl := Option.some.inj (stands.symm.trans instance_eq)
  rw [instanceOf_eq] at set
  obtain ⟨setting, settled_mem, rfl⟩ := List.mem_map.mp set
  rw [Value.references_relink] at refers
  obtain ⟨target, target_mem, linked⟩ := List.mem_filterMap.mp refers
  exact ⟨_, List.getElem_mem below, snapshot, live, setting, settled_mem, target, target_mem,
    (rebuilt.link_iff target slot).mp linked⟩

/-- A heap whose instances refer to value objects only, and in which every reference of a stored
state to an entity became null. -/
structure EntityFree (types : TypeTable) (live? : GlobalId → Option Snapshot)
    (names : List GlobalId) (link : GlobalId → Option Slot) (heap : Heap) : Prop where
  /-- Slots that instances refer to stand for value objects. -/
  owned : ∀ object ∈ heap.instances, ∀ property ∈ object.properties,
    ∀ slot ∈ property.2.references, ∃ target, names[slot]? = some target ∧ target.isValueObject
  /-- Instances are those of states in which references to value objects alone have a slot. -/
  nulled : ∀ slot owner snapshot, names[slot]? = some owner → live? owner = some snapshot →
    heap.get? slot =
      some (instanceOf types (fun target => if target.isValueObject then link target else none)
        snapshot)

section Shallow

variable (rebuilt : Rebuilt types .shallow live? root names link heap)

include rebuilt

theorem Rebuilt.root_or_isValueObject (member : id ∈ names) : id = root ∨ id.isValueObject :=
  ((rebuilt.mem_iff id).mp member).root_or_isValueObject

theorem Rebuilt.link_root : link root = some 0 := (rebuilt.link_iff root 0).mpr rebuilt.first

/-- Of the entities, only the root has a slot. -/
theorem Rebuilt.link_of_entity (entity : ¬ id.isValueObject) :
    link id = if id = root then some 0 else none := by
  split
  next same => rw [same, rebuilt.link_root]
  next other =>
    refine Option.eq_none_iff_forall_ne_some.mpr fun slot linked => ?_
    have named := List.mem_of_getElem? ((rebuilt.link_iff id slot).mp linked)
    exact (rebuilt.root_or_isValueObject named).elim other entity

/-- Instances refer to value objects and to the root. -/
theorem Rebuilt.root_or_owned {object : Instance} (member : object ∈ heap.instances)
    {property : String × Live} (set : property ∈ object.properties) {slot : Slot}
    (refers : slot ∈ property.2.references) :
    slot = 0 ∨ ∃ target, names[slot]? = some target ∧ target.isValueObject := by
  obtain ⟨_, _, _, _, _, _, target, _, named⟩ := rebuilt.of_reference member set refers
  rcases rebuilt.root_or_isValueObject (List.mem_of_getElem? named) with rfl | owned
  · have linked := (rebuilt.link_iff target slot).mpr named
    exact .inl (Option.some.inj (linked.symm.trans rebuilt.link_root))
  · exact .inr ⟨target, named, owned⟩

/-- The heap of a shallow shadow refers to value objects only as long as no state that became an
instance refers to the root. -/
theorem Rebuilt.entityFree_iff (entity : ¬ root.isValueObject) :
    EntityFree types live? names link heap ↔
      ∀ owner ∈ names, ∀ snapshot, live? owner = some snapshot →
        ∀ setting ∈ settled snapshot.state.entries, root ∉ setting.2.references := by
  constructor
  · intro free owner owner_mem snapshot live setting settled_mem refers
    obtain ⟨slot, named⟩ := List.mem_iff_getElem?.mp owner_mem
    have stands := rebuilt.get?_of_live named live
    have set : (setting.1, setting.2.relink link) ∈
        (instanceOf types link snapshot).properties := by
      rw [instanceOf_eq]
      exact List.mem_map_of_mem settled_mem
    have carried : 0 ∈ (setting.2.relink link).references := by
      rw [Value.references_relink]
      exact List.mem_filterMap.mpr ⟨root, refers, rebuilt.link_root⟩
    obtain ⟨target, first, owned⟩ := free.owned _ (List.mem_of_getElem? stands) _ set 0 carried
    rw [rebuilt.first, Option.some.injEq] at first
    exact entity (first ▸ owned)
  · intro none_refers
    constructor
    · intro object member property set slot refers
      obtain ⟨owner, owner_mem, snapshot, live, setting, settled_mem, target, target_mem, named⟩ :=
        rebuilt.of_reference member set refers
      refine ⟨target, named, ?_⟩
      refine (rebuilt.root_or_isValueObject (List.mem_of_getElem? named)).resolve_left ?_
      rintro rfl
      exact none_refers owner owner_mem snapshot live setting settled_mem target_mem
    · intro slot owner snapshot named live
      rw [rebuilt.get?_of_live named live, instanceOf_eq, instanceOf_eq]
      refine congrArg (fun properties => some (Instance.mk _ properties)) (carry_congr ?_)
      intro target refers
      obtain ⟨setting, settled_mem, refers⟩ := List.mem_flatMap.mp refers
      have owner_mem := List.mem_of_getElem? named
      have other_than_root : target ≠ root := by
        rintro rfl
        exact none_refers owner owner_mem snapshot live setting settled_mem refers
      by_cases owned : target.isValueObject
      · rw [if_pos owned]
      · rw [if_neg owned, rebuilt.link_of_entity owned, if_neg other_than_root]

end Shallow

end Rebuilt

/-- A shadow that a backend answers with is rebuilt from what can be read in it. -/
theorem rebuilt_of_answered {backend : Backend} (sound : backend.Sound) {types : TypeTable}
    {scheme : CommitIdScheme} {id : GlobalId} {selector : VersionSelector} {scope : ShadowScope}
    {shadow : Shadow}
    (answered : Shadow.of types backend scheme id selector scope = .ok shadow) :
    ∃ query names link, selector.query backend scheme = .ok query ∧ shadow.root = 0 ∧
      Rebuilt types scope (Store.found? backend query) id names link shadow.heap := by
  obtain ⟨query, selects, answered⟩ := bind_eq_ok_iff.mp answered
  cases live : Store.live? backend id query with
  | error => rw [live] at answered; cases answered
  | ok found =>
      cases found with
      | none => rw [live] at answered; cases answered
      | some snapshot =>
          rw [live] at answered
          obtain ⟨heap, filled, same⟩ := bind_eq_ok_iff.mp (mapError_eq_ok_iff.mp answered)
          obtain rfl := Except.ok.inj same
          have found : Store.found? backend query id = some snapshot :=
            Store.found?_eq_some_iff.mpr live
          obtain ⟨rebuilt_heap, names, link, leniently, rebuilt⟩ :=
            ofSnapshot_spec (sound.source query) types scope found
          obtain ⟨other, other_filled, same⟩ := bind_eq_ok_iff.mp leniently
          have heaps : other = heap := by
            have filled :=
              fill_related compatible_refines (refines_lenient backend query) _ _ _ filled
            exact Except.ok.inj (other_filled.symm.trans filled)
          obtain ⟨rfl, -⟩ := Shadow.mk.inj (Except.ok.inj same)
          exact ⟨query, names, link, selects, rfl, heaps ▸ rebuilt⟩

end Shadow

/-- Whatever commits are offered to an empty backend, let there be a shallow shadow of an entity.
Its instances refer to value objects and to its own root, and of the references to entities all but
those to that root became null.  So there are none left exactly if no stored state that became an
instance refers to the root. -/
theorem Backend.shadow_shallow {backend : Backend}
    (blank : backend = .memory .empty ∨ backend = .rows .empty) (commits : List Commit)
    {types : TypeTable} {scheme : CommitIdScheme} {id : GlobalId} (entity : ¬ id.isValueObject)
    {selector : VersionSelector} {shadow : Shadow}
    (answered : Shadow.of types (Store.offerAll backend commits) scheme id selector .shallow =
      .ok shadow) :
    ∃ query names link, selector.query (Store.offerAll backend commits) scheme = .ok query ∧
      Shadow.Rebuilt types .shallow (Store.found? (Store.offerAll backend commits) query) id names
        link shadow.heap ∧
      (∀ object ∈ shadow.heap.instances, ∀ property ∈ object.properties,
        ∀ slot ∈ property.2.references,
          slot = shadow.root ∨ ∃ target, names[slot]? = some target ∧ target.isValueObject) ∧
      (∀ target, ¬ target.isValueObject →
        link target = if target = id then some shadow.root else none) ∧
      (Shadow.EntityFree types (Store.found? (Store.offerAll backend commits) query) names link
          shadow.heap ↔
        ∀ owner ∈ names, ∀ snapshot,
          Store.found? (Store.offerAll backend commits) query owner = some snapshot →
            ∀ setting ∈ settled snapshot.state.entries, id ∉ setting.2.references) := by
  have sound : backend.Sound := by
    rcases blank with rfl | rfl
    · trivial
    · exact RowStore.sound_empty
  obtain ⟨query, names, link, selects, root, rebuilt⟩ :=
    Shadow.rebuilt_of_answered (sound.offerAll commits) answered
  rw [root]
  exact ⟨query, names, link, selects, rebuilt,
    fun _ member _ set _ refers => rebuilt.root_or_owned member set refers,
    fun _ entity => rebuilt.link_of_entity entity, rebuilt.entityFree_iff entity⟩

/-- A user has an address and a friend.  The address comes along, and the friend becomes null. -/
theorem Backend.shadow_shallow_friend :
    let user : GlobalId := .entity "User" (.int 1)
    let home : GlobalId := user.child "home"
    let metadata : CommitMetadata := ⟨⟨1, 0⟩, "ann", 0, 1, .empty⟩
    let first (id : GlobalId) (typeName : String) (state : List (String × Captured)) : Snapshot :=
      .following metadata ⟨id, typeName, .ofList state⟩ .initial [] none
    let commit : Commit := ⟨metadata, ⟨[]⟩,
      [first user "User" [("home", .ref home), ("friends", .seq [.ref (.entity "User" (.int 2))])],
        first home "Address" [("city", .scalar (.text "Paris"))]]⟩
    ∃ shadow,
      Shadow.of .empty (Store.offerAll (Backend.memory .empty) [commit]) .sequential user .latest
        .shallow = .ok shadow ∧ shadow.heap.size = 2 ∧
      ∃ query names link, Shadow.EntityFree .empty
        (Store.found? (Store.offerAll (Backend.memory .empty) [commit]) query) names link
          shadow.heap := by
  intro user home metadata first commit
  obtain ⟨shadow, answered⟩ : ∃ shadow, Shadow.of .empty
      (Store.offerAll (Backend.memory .empty) [commit]) .sequential user .latest .shallow =
        .ok shadow := exists_of_toOption (by decide +kernel)
  have two : ∀ shadow ∈ (Shadow.of .empty (Store.offerAll (Backend.memory .empty) [commit])
      .sequential user .latest .shallow).toOption, shadow.heap.size = 2 := by decide +kernel
  obtain ⟨query, names, link, -, -, -, -, free⟩ :=
    Backend.shadow_shallow (.inl rfl) [commit] (by decide) answered
  refine ⟨shadow, answered, two shadow (mem_toOption answered), query, names, link, free.mpr ?_⟩
  have none_refers : ∀ snapshot ∈ commit.snapshots.reverse,
      ∀ setting ∈ settled snapshot.state.entries, user ∉ setting.2.references := by decide +kernel
  intro owner _ snapshot found
  exact none_refers snapshot (MemoryStore.mem_of_live? (Store.found?_eq_some_iff.mp found)).1

/-- A user is a friend of themselves. -/
theorem Backend.not_entityFree_self :
    ¬ ∀ (backend : Backend), (backend = .memory .empty ∨ backend = .rows .empty) →
      ∀ (commits : List Commit) (types : TypeTable) (scheme : CommitIdScheme) (id : GlobalId),
        ¬ id.isValueObject → ∀ (selector : VersionSelector) (shadow : Shadow),
          Shadow.of types (Store.offerAll backend commits) scheme id selector .shallow =
            .ok shadow →
          ∃ query names link, selector.query (Store.offerAll backend commits) scheme = .ok query ∧
            Shadow.Rebuilt types .shallow (Store.found? (Store.offerAll backend commits) query) id
              names link shadow.heap ∧
            Shadow.EntityFree types (Store.found? (Store.offerAll backend commits) query) names
              link shadow.heap := by
  let user : GlobalId := .entity "User" (.int 1)
  let metadata : CommitMetadata := ⟨⟨1, 0⟩, "ann", 0, 1, .empty⟩
  let node : Node := ⟨user, "User", .ofList [("friend", .ref user)]⟩
  let commit : Commit := ⟨metadata, ⟨[]⟩, [.following metadata node .initial [] none]⟩
  intro all_free
  obtain ⟨shadow, answered⟩ : ∃ shadow, Shadow.of .empty
      (Store.offerAll (Backend.memory .empty) [commit]) .sequential user .latest .shallow =
        .ok shadow := exists_of_toOption (by decide +kernel)
  have refers : ∀ shadow ∈ (Shadow.of .empty (Store.offerAll (Backend.memory .empty) [commit])
      .sequential user .latest .shallow).toOption, ∃ object ∈ shadow.heap.instances,
        ∃ property ∈ object.properties, 0 ∈ property.2.references := by decide +kernel
  obtain ⟨object, member, property, set, to_root⟩ := refers shadow (mem_toOption answered)
  obtain ⟨_, names, _, -, rebuilt, free⟩ :=
    all_free _ (.inl rfl) [commit] .empty .sequential user (by decide) .latest shadow answered
  obtain ⟨target, named, owned⟩ := free.owned object member property set 0 to_root
  rw [rebuilt.first, Option.some.injEq] at named
  exact absurd (named ▸ owned) (by decide)

end AuditTrail
