import AuditTrail.Proofs.Table
import AuditTrail.Proofs.Value.Relink
import AuditTrail.Shadow

/-!
# Rebuilding values

Rebuilding a value places the nodes that it refers to, each once, and carries its references over to
their slots.  Nodes that are placed keep their slots, so what was rebuilt before stays right.
-/

namespace AuditTrail

namespace Shadow

open Schema

/-- What a query finds in a store: the newest live snapshots, by node. -/
structure Source {σ : Type} [Store σ] (store : σ) (query : Query)
    (live? : GlobalId → Option Snapshot) : Prop where
  /-- The store answers with the live snapshots. -/
  answers : ∀ id, Store.live? store id query = .ok (live? id)
  /-- Snapshots are found under the ids of their nodes. -/
  named : ∀ id snapshot, live? id = some snapshot → snapshot.id = id
  /-- The nodes with a live snapshot are counted. -/
  counted : ∃ ids : List GlobalId, ids.length ≤ Store.snapshotCount store ∧
    ∀ id, (live? id).isSome → id ∈ ids

/-- References to the node are followed and lead to a live snapshot. -/
def Leads (scope : ShadowScope) (live? : GlobalId → Option Snapshot) (id : GlobalId) : Prop :=
  (scope = .deep ∨ id.isValueObject) ∧ (live? id).isSome

namespace Rebuild

/-- The instances at consecutive slots stand for the named nodes, each of them once. -/
structure Indexed (names : List GlobalId) (rebuild : Rebuild) : Prop where
  /-- There are as many instances as names. -/
  size : rebuild.heap.size = names.length
  /-- No node has two instances. -/
  distinct : names.Nodup
  /-- A node is found at the slot that it names. -/
  slot?_iff : ∀ id slot, rebuild.slot? id = some slot ↔ names[slot]? = some id

variable {names : List GlobalId} {rebuild : Rebuild} {id : GlobalId}

theorem slot?_place (rebuild : Rebuild) (className : String) (snapshot : Snapshot)
    (id : GlobalId) :
    (rebuild.place className snapshot).slot? id =
      if snapshot.id = id then some rebuild.heap.size else rebuild.slot? id := by
  by_cases same : snapshot.id = id <;> simp [slot?, place, same]

theorem Indexed.slot?_eq_none_iff (indexed : rebuild.Indexed names) :
    rebuild.slot? id = none ↔ id ∉ names := by
  rw [Option.eq_none_iff_forall_ne_some, List.mem_iff_getElem?, not_exists]
  exact forall_congr' fun slot => (indexed.slot?_iff id slot).not

theorem indexed_empty : empty.Indexed [] where
  size := rfl
  distinct := List.nodup_nil
  slot?_iff id slot := by simp [empty, slot?]

/-- A new node takes the next slot. -/
theorem Indexed.place (indexed : rebuild.Indexed names) {snapshot : Snapshot}
    (fresh : snapshot.id ∉ names) (className : String) :
    (rebuild.place className snapshot).Indexed (names ++ [snapshot.id]) where
  size := by simp [Rebuild.place, Heap.alloc, Heap.size, ← indexed.size]
  distinct := by
    rw [List.nodup_append']
    exact ⟨indexed.distinct, List.nodup_singleton _, by simpa using fresh⟩
  slot?_iff id slot := by
    rw [slot?_place, indexed.size, List.getElem?_append]
    by_cases same : snapshot.id = id
    · subst same
      rw [if_pos rfl, Option.some.injEq]
      split
      next below =>
        refine iff_of_false (Nat.ne_of_gt below) fun found => fresh (List.mem_of_getElem? found)
      next above =>
        rw [List.getElem?_singleton]
        split
        next => exact iff_of_true (by omega) rfl
        next => exact iff_of_false (by omega) (fun found => nomatch found)
    · rw [if_neg same, indexed.slot?_iff]
      split
      next => rfl
      next above =>
        rw [List.getElem?_eq_none (Nat.le_of_not_lt above), List.getElem?_singleton]
        split
        next => simp [same]
        next => rfl

/-- Nodes placed one after another, with the classes that their snapshots become. -/
def placeAll (types : TypeTable) (rebuild : Rebuild) (snapshots : List Snapshot) : Rebuild :=
  snapshots.foldl (fun rebuild snapshot => rebuild.place (classOf types snapshot) snapshot) rebuild

theorem placeAll_append (types : TypeTable) (rebuild : Rebuild) (first second : List Snapshot) :
    rebuild.placeAll types (first ++ second) =
      (rebuild.placeAll types first).placeAll types second :=
  List.foldl_append

/-- Placing other nodes leaves the slot of a node as it is. -/
theorem slot?_placeAll (types : TypeTable) (rebuild : Rebuild) {snapshots : List Snapshot}
    (absent : id ∉ snapshots.map Snapshot.id) :
    (rebuild.placeAll types snapshots).slot? id = rebuild.slot? id := by
  induction snapshots generalizing rebuild with
  | nil => rfl
  | cons snapshot rest induction =>
      rw [List.map_cons, List.mem_cons, not_or] at absent
      rw [placeAll, List.foldl_cons, ← placeAll, induction _ absent.2, slot?_place,
        if_neg (Ne.symm absent.1)]

theorem heap_placeAll (types : TypeTable) (rebuild : Rebuild) (snapshots : List Snapshot) :
    (rebuild.placeAll types snapshots).heap.instances =
      rebuild.heap.instances ++
        snapshots.map fun snapshot => .ofClass (classOf types snapshot) := by
  induction snapshots generalizing rebuild with
  | nil => exact (List.append_nil _).symm
  | cons snapshot rest induction =>
      have heap : (rebuild.place (classOf types snapshot) snapshot).heap.instances =
          rebuild.heap.instances ++ [.ofClass (classOf types snapshot)] := rfl
      rw [placeAll, List.foldl_cons, ← placeAll, induction, heap, List.map_cons, ← List.append_cons]

theorem pending_placeAll (types : TypeTable) (rebuild : Rebuild) (snapshots : List Snapshot) :
    (rebuild.placeAll types snapshots).pending =
      ((snapshots.zipIdx rebuild.heap.size).map Prod.swap).reverse ++ rebuild.pending := by
  induction snapshots generalizing rebuild with
  | nil => rfl
  | cons snapshot rest induction =>
      have size : (rebuild.place (classOf types snapshot) snapshot).heap.size =
          rebuild.heap.size + 1 := List.length_append
      rw [placeAll, List.foldl_cons, ← placeAll, induction, size, List.zipIdx_cons, List.map_cons,
        List.reverse_cons, List.append_assoc]
      rfl

theorem Indexed.placeAll (indexed : rebuild.Indexed names) (types : TypeTable)
    {snapshots : List Snapshot} (distinct : (names ++ snapshots.map Snapshot.id).Nodup) :
    (rebuild.placeAll types snapshots).Indexed (names ++ snapshots.map Snapshot.id) := by
  induction snapshots generalizing rebuild names with
  | nil => rwa [List.map_nil, List.append_nil]
  | cons snapshot rest induction =>
      rw [List.map_cons, List.append_cons] at distinct ⊢
      have fresh : snapshot.id ∉ names := by
        rw [List.nodup_append'] at distinct
        simpa using (List.nodup_append'.mp distinct.1).2.2
      exact induction (indexed.place fresh (classOf types snapshot)) distinct

end Rebuild

section Values

variable {σ : Type} [Store σ] {types : TypeTable} {store : σ} {query : Query}
  {scope : ShadowScope} {live? : GlobalId → Option Snapshot} {names : List GlobalId}
  {rebuild : Rebuild}

/-- The nodes that rebuilding values with given references places: those that are not placed yet and
that one of the references leads to. -/
structure Placed (scope : ShadowScope) (live? : GlobalId → Option Snapshot)
    (names references : List GlobalId) (more : List Snapshot) : Prop where
  /-- No node is placed twice. -/
  distinct : (names ++ more.map Snapshot.id).Nodup
  /-- The live snapshots are placed. -/
  found : ∀ snapshot ∈ more, live? snapshot.id = some snapshot
  /-- Some reference leads to each of them. -/
  needed : ∀ snapshot ∈ more, snapshot.id ∈ references ∧ Leads scope live? snapshot.id
  /-- Every node that a reference leads to is placed. -/
  settled : ∀ id ∈ references, Leads scope live? id → id ∈ names ++ more.map Snapshot.id

theorem placed_nil (distinct : names.Nodup) : Placed scope live? names [] [] where
  distinct := by rwa [List.map_nil, List.append_nil]
  found _ member := nomatch member
  needed _ member := nomatch member
  settled _ member := nomatch member

theorem Placed.append {references references' : List GlobalId} {more more' : List Snapshot}
    (first : Placed scope live? names references more)
    (second : Placed scope live? (names ++ more.map Snapshot.id) references' more') :
    Placed scope live? names (references ++ references') (more ++ more') where
  distinct := by
    rw [List.map_append, ← List.append_assoc]
    exact second.distinct
  found := List.forall_mem_append.mpr ⟨first.found, second.found⟩
  needed := by
    refine List.forall_mem_append.mpr ⟨fun snapshot member => ?_, fun snapshot member => ?_⟩
    · exact (first.needed snapshot member).imp_left (List.mem_append_left _)
    · exact (second.needed snapshot member).imp_left (List.mem_append_right _)
  settled := by
    rw [List.map_append, ← List.append_assoc]
    refine List.forall_mem_append.mpr ⟨fun id member leads => ?_, second.settled⟩
    exact List.mem_append_left _ (first.settled id member leads)

/-- Nodes placed later are none that the references before lead to. -/
theorem Placed.notMem {references references' : List GlobalId} {more more' : List Snapshot}
    (first : Placed scope live? names references more)
    (second : Placed scope live? (names ++ more.map Snapshot.id) references' more')
    {id : GlobalId} (member : id ∈ references) : id ∉ more'.map Snapshot.id := by
  intro placed
  obtain ⟨snapshot, snapshot_mem, rfl⟩ := List.mem_map.mp placed
  have before := first.settled _ member (second.needed snapshot snapshot_mem).2
  exact (List.nodup_append'.mp second.distinct).2.2 before placed

/-- What rebuilding a value comes to. -/
def RebuildsTo (types : TypeTable) (scope : ShadowScope) (live? : GlobalId → Option Snapshot)
    (names references : List GlobalId) (rebuild : Rebuild) {α : Type}
    (carried : (GlobalId → Option Slot) → α) (outcome : Except StoreError (α × Rebuild)) : Prop :=
  ∃ more, Placed scope live? names references more ∧
    outcome = .ok (carried (rebuild.placeAll types more).slot?, rebuild.placeAll types more)

theorem rebuildsTo_idle (indexed : rebuild.Indexed names) {α : Type} {live : α} :
    RebuildsTo types scope live? names [] rebuild (fun _ => live) (.ok (live, rebuild)) :=
  ⟨[], placed_nil indexed.distinct, rfl⟩

/-- Rebuilding one thing after another. -/
theorem RebuildsTo.bind {α β γ : Type} {references references' : List GlobalId}
    {carried : (GlobalId → Option Slot) → α} {carried' : (GlobalId → Option Slot) → β}
    {outcome : Except StoreError (α × Rebuild)}
    {next : Rebuild → Except StoreError (β × Rebuild)} (combine : α → β → γ)
    (indexed : rebuild.Indexed names)
    (local_congr : ∀ link link' : GlobalId → Option Slot,
      (∀ id ∈ references, link id = link' id) → carried link = carried link')
    (first : RebuildsTo types scope live? names references rebuild carried outcome)
    (second : ∀ {names rebuild}, rebuild.Indexed names →
      RebuildsTo types scope live? names references' rebuild carried' (next rebuild)) :
    RebuildsTo types scope live? names (references ++ references') rebuild
      (fun link => combine (carried link) (carried' link))
      (outcome.bind fun (left, rebuild) => (next rebuild).bind fun (right, rebuild) =>
        .ok (combine left right, rebuild)) := by
  obtain ⟨more, placed, rfl⟩ := first
  obtain ⟨more', placed', rebuilt⟩ := second (indexed.placeAll types placed.distinct)
  refine ⟨more ++ more', placed.append placed', ?_⟩
  simp only [Except.bind, rebuilt, Rebuild.placeAll_append]
  rw [local_congr _ _ fun id member =>
    (Rebuild.slot?_placeAll types _ (placed.notMem placed' member)).symm]

/-- A reference that leads to no new node places nothing. -/
theorem rebuildsTo_settled (indexed : rebuild.Indexed names) {id : GlobalId}
    (settled : Leads scope live? id → id ∈ names) {outcome : Except StoreError (Live × Rebuild)}
    (same : outcome = .ok ((Value.ref id).relink rebuild.slot?, rebuild)) :
    RebuildsTo types scope live? names [id] rebuild (fun link => (Value.ref id).relink link)
      outcome := by
  refine ⟨[], ⟨?_, fun _ member => (nomatch member), fun _ member => (nomatch member),
    fun other member leads => ?_⟩, same⟩
  · rw [List.map_nil, List.append_nil]
    exact indexed.distinct
  · obtain rfl := List.mem_singleton.mp member
    exact List.mem_append_left _ (settled leads)

/-- A reference that leads to a new node places it at the next slot. -/
theorem rebuildsTo_placed (indexed : rebuild.Indexed names) {snapshot : Snapshot}
    (fresh : snapshot.id ∉ names) (found : live? snapshot.id = some snapshot)
    (leads : Leads scope live? snapshot.id) {outcome : Except StoreError (Live × Rebuild)}
    (same : outcome =
      .ok (.ref rebuild.heap.size, rebuild.place (classOf types snapshot) snapshot)) :
    RebuildsTo types scope live? names [snapshot.id] rebuild
      (fun link => (Value.ref snapshot.id).relink link) outcome := by
  refine ⟨[snapshot], ⟨?_, List.forall_mem_singleton.mpr found,
    List.forall_mem_singleton.mpr ⟨List.mem_singleton_self _, leads⟩,
    fun other member _ => List.mem_append_right _ member⟩, ?_⟩
  · rw [List.map_singleton, List.nodup_append']
    exact ⟨indexed.distinct, List.nodup_singleton _, List.disjoint_singleton.mpr fresh⟩
  · have slot : (rebuild.placeAll types [snapshot]).slot? snapshot.id =
        some rebuild.heap.size := by
      rw [Rebuild.placeAll, List.foldl_cons, List.foldl_nil, Rebuild.slot?_place, if_pos rfl]
    simp only [same, Value.relink, slot]
    rfl

theorem stops_iff {id : GlobalId} :
    (scope == .shallow && !id.isValueObject) = true ↔ ¬ (scope = .deep ∨ id.isValueObject) := by
  cases scope <;> simp

theorem rebuildRef_spec (source : Source store query live?) (indexed : rebuild.Indexed names)
    (id : GlobalId) :
    RebuildsTo types scope live? names [id] rebuild (fun link => (Value.ref id).relink link)
      (rebuildRef types store query scope id rebuild) := by
  cases known : rebuild.slot? id with
  | some slot =>
      have named : id ∈ names := List.mem_of_getElem? ((indexed.slot?_iff id slot).mp known)
      refine rebuildsTo_settled indexed (fun _ => named) ?_
      simp only [rebuildRef, Value.relink, known]
      rfl
  | none =>
      have fresh : id ∉ names := indexed.slot?_eq_none_iff.mp known
      by_cases followed : scope = .deep ∨ id.isValueObject
      · have passes := mt stops_iff.mp (not_not.mpr followed)
        cases found : live? id with
        | none =>
            refine rebuildsTo_settled indexed (fun leads => ?_) ?_
            · rw [Leads, found] at leads
              cases leads.2
            · simp only [rebuildRef, known, if_neg passes, source.answers, found, Value.relink]
              rfl
        | some snapshot =>
            obtain rfl := source.named id snapshot found
            refine rebuildsTo_placed indexed fresh found
              ⟨followed, Option.isSome_of_eq_some found⟩ ?_
            simp only [rebuildRef, known, if_neg passes, source.answers, found]
            rfl
      · refine rebuildsTo_settled indexed (fun leads => absurd leads.1 followed) ?_
        simp only [rebuildRef, known, if_pos (stops_iff.mpr followed), Value.relink]
        rfl

mutual

/-- Rebuilding a value places what its references lead to and carries them over to slots. -/
theorem rebuildValue_spec (source : Source store query live?) {names : List GlobalId}
    {rebuild : Rebuild} (indexed : rebuild.Indexed names) (value : Captured) :
    RebuildsTo types scope live? names value.references rebuild (fun link => value.relink link)
      (rebuildValue types store query scope value rebuild) := by
  cases value with
  | null | scalar =>
      simp only [rebuildValue, Value.references, Value.relink]
      exact rebuildsTo_idle indexed
  | ref id =>
      rw [rebuildValue, Value.references]
      exact rebuildRef_spec source indexed id
  | seq items =>
      obtain ⟨more, placed, rebuilt⟩ := rebuildItems_spec source indexed items
      rw [Value.references]
      refine ⟨more, placed, ?_⟩
      simp only [rebuildValue, rebuilt, Value.relink]
      rfl
  | map entries =>
      obtain ⟨more, placed, rebuilt⟩ := rebuildEntries_spec source indexed entries
      rw [Value.references]
      refine ⟨more, placed, ?_⟩
      simp only [rebuildValue, rebuilt, Value.relink]
      rfl

theorem rebuildItems_spec (source : Source store query live?) {names : List GlobalId}
    {rebuild : Rebuild} (indexed : rebuild.Indexed names) (items : List Captured) :
    RebuildsTo types scope live? names (Value.referencesOfItems items) rebuild
      (fun link => Value.relinkItems link items)
      (rebuildItems types store query scope items rebuild) := by
  cases items with
  | nil =>
      simp only [rebuildItems, Value.referencesOfItems, Value.relinkItems]
      exact rebuildsTo_idle indexed
  | cons item rest =>
      simp only [rebuildItems, Value.referencesOfItems, Value.relinkItems]
      exact (rebuildValue_spec source indexed item).bind List.cons indexed
        (fun _ _ same => Value.relink_congr item same)
        fun indexed => rebuildItems_spec source indexed rest

theorem rebuildEntries_spec (source : Source store query live?) {names : List GlobalId}
    {rebuild : Rebuild} (indexed : rebuild.Indexed names) (entries : List (Captured × Captured)) :
    RebuildsTo types scope live? names (Value.referencesOfEntries entries) rebuild
      (fun link => Value.relinkEntries link entries)
      (rebuildEntries types store query scope entries rebuild) := by
  cases entries with
  | nil =>
      simp only [rebuildEntries, Value.referencesOfEntries, Value.relinkEntries]
      exact rebuildsTo_idle indexed
  | cons entry rest =>
      obtain ⟨key, value⟩ := entry
      have pair := (rebuildValue_spec source indexed key).bind Prod.mk indexed
        (fun _ _ same => Value.relink_congr key same)
        fun indexed => rebuildValue_spec source indexed value
      have all := pair.bind List.cons indexed
        (fun _ _ same => by
          rw [List.forall_mem_append] at same
          rw [Value.relink_congr key same.1, Value.relink_congr value same.2])
        fun indexed => rebuildEntries_spec source indexed rest
      simp only [rebuildEntries, Value.referencesOfEntries, Value.relinkEntries]
      convert all using 1
      -- The entry is rebuilt as a whole before the rest, which makes no difference.
      cases rebuildValue types store query scope key rebuild with
      | error => rfl
      | ok first =>
          obtain ⟨key, rebuild⟩ := first
          simp only [bind, Except.bind]
          cases rebuildValue types store query scope value rebuild <;> rfl

end

/-- The properties of a state with their references carried over to slots. -/
def carry (link : GlobalId → Option Slot) (entries : List (String × Captured)) :
    List (String × Live) :=
  entries.map fun entry => (entry.1, entry.2.relink link)

theorem carry_congr {link other : GlobalId → Option Slot} {entries : List (String × Captured)}
    (same : ∀ id ∈ entries.flatMap fun entry => entry.2.references, link id = other id) :
    carry link entries = carry other entries := by
  refine List.map_congr_left fun entry member => ?_
  rw [Value.relink_congr entry.2 fun id refers =>
    same id (List.mem_flatMap.mpr ⟨entry, member, refers⟩)]

theorem rebuildProperties_spec (source : Source store query live?)
    (indexed : rebuild.Indexed names) (entries : List (String × Captured)) :
    RebuildsTo types scope live? names (entries.flatMap fun entry => entry.2.references) rebuild
      (fun link => carry link entries)
      (rebuildProperties types store query scope entries rebuild) := by
  induction entries generalizing names rebuild with
  | nil => exact rebuildsTo_idle indexed
  | cons entry rest induction =>
      obtain ⟨name, value⟩ := entry
      exact (rebuildValue_spec source indexed value).bind (fun value rest => (name, value) :: rest)
        indexed (fun _ _ same => Value.relink_congr value same) fun indexed => induction indexed

end Values

end Shadow
end AuditTrail
