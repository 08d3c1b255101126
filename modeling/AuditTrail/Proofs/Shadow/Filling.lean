import AuditTrail.Proofs.Except
import AuditTrail.Proofs.Shadow.Rebuild

/-!
# The heap of a shadow

Filling in waiting instances ends with one instance for each node that references lead to from the
root, in which every reference is carried over to the slot of its target.  The store is asked for
live snapshots only, and the room that filling is given does not matter as long as it suffices.
-/

namespace AuditTrail.Shadow

open Schema

/-- The instance that a snapshot becomes. -/
def instanceOf (types : TypeTable) (link : GlobalId → Option Slot) (snapshot : Snapshot) :
    Instance :=
  .ofList (classOf types snapshot) (carry link snapshot.state.entries)

/-- The nodes that references lead to from a root. -/
inductive Linked (scope : ShadowScope) (live? : GlobalId → Option Snapshot) (root : GlobalId) :
    GlobalId → Prop
  /-- The root itself. -/
  | root : Linked scope live? root root
  /-- What the live snapshot of such a node leads to. -/
  | step {owner target snapshot} (linked : Linked scope live? root owner)
      (found : live? owner = some snapshot) (refers : target ∈ snapshot.state.references)
      (leads : Leads scope live? target) : Linked scope live? root target

/-- A heap holds one instance for each node that references lead to from a root. -/
structure Rebuilt (types : TypeTable) (scope : ShadowScope) (live? : GlobalId → Option Snapshot)
    (root : GlobalId) (names : List GlobalId) (link : GlobalId → Option Slot) (heap : Heap) :
    Prop where
  /-- There are as many instances as names. -/
  size : heap.size = names.length
  /-- No node has two instances. -/
  distinct : names.Nodup
  /-- The root comes first. -/
  first : names[0]? = some root
  /-- A node is linked to the slot that it names. -/
  link_iff : ∀ id slot, link id = some slot ↔ names[slot]? = some id
  /-- The nodes that are led to are named. -/
  mem_iff : ∀ id, id ∈ names ↔ Linked scope live? root id
  /-- At each slot stands the instance of its node's live snapshot. -/
  get?_eq : ∀ slot id, names[slot]? = some id →
    ∃ snapshot, live? id = some snapshot ∧ heap.get? slot = some (instanceOf types link snapshot)

/-- What filling in one instance after another preserves. -/
structure Filling (types : TypeTable) (scope : ShadowScope) (live? : GlobalId → Option Snapshot)
    (root : GlobalId) (names : List GlobalId) (rebuild : Rebuild) : Prop where
  /-- Instances and names correspond. -/
  indexed : rebuild.Indexed names
  /-- The root comes first. -/
  first : names[0]? = some root
  /-- Waiting instances are empty, and their live snapshots wait with them. -/
  waiting : ∀ entry ∈ rebuild.pending, names[entry.1]? = some entry.2.id ∧
    live? entry.2.id = some entry.2 ∧
      rebuild.heap.get? entry.1 = some (.ofClass (classOf types entry.2))
  /-- No instance waits twice. -/
  once : (rebuild.pending.map Prod.fst).Nodup
  /-- All others are filled in, and what they lead to is placed. -/
  filled : ∀ slot id, names[slot]? = some id → slot ∉ rebuild.pending.map Prod.fst →
    ∃ snapshot, live? id = some snapshot ∧
      rebuild.heap.get? slot = some (instanceOf types rebuild.slot? snapshot) ∧
      ∀ target ∈ snapshot.state.references, Leads scope live? target → target ∈ names
  /-- Only nodes that are led to are placed. -/
  linked : ∀ id ∈ names, Linked scope live? root id
  /-- Only live nodes are placed. -/
  live : ∀ id ∈ names, (live? id).isSome

section Filling

variable {σ : Type} [Store σ] {types : TypeTable} {store : σ} {query : Query}
  {scope : ShadowScope} {live? : GlobalId → Option Snapshot} {root : GlobalId}
  {names : List GlobalId} {rebuild : Rebuild}

theorem get?_update (heap : Heap) (slot other : Slot) (change : Instance → Instance) :
    (heap.update slot change).get? other =
      if slot = other then (heap.get? other).map change else heap.get? other := by
  simp only [Heap.get?, Heap.update, List.getElem?_modify]
  split <;> simp

theorem Filling.finish (filling : Filling types scope live? root names rebuild)
    (done : rebuild.pending = []) :
    Rebuilt types scope live? root names rebuild.slot? rebuild.heap where
  size := filling.indexed.size
  distinct := filling.indexed.distinct
  first := filling.first
  link_iff := filling.indexed.slot?_iff
  mem_iff id := by
    refine ⟨filling.linked id, fun linked => ?_⟩
    induction linked with
    | root => exact List.mem_of_getElem? filling.first
    | step _ found refers leads induction =>
        obtain ⟨slot, named⟩ := List.mem_iff_getElem?.mp induction
        obtain ⟨snapshot, live, -, settled⟩ := filling.filled slot _ named (by simp [done])
        rw [found, Option.some.injEq] at live
        subst live
        exact settled _ refers leads
  get?_eq slot id named := by
    obtain ⟨snapshot, live, stands, -⟩ := filling.filled slot id named (by simp [done])
    exact ⟨snapshot, live, stands⟩

/-- Placed nodes are live, so there are no more of them than live nodes. -/
theorem Filling.length_le (filling : Filling types scope live? root names rebuild)
    {ids : List GlobalId} (counted : ∀ id, (live? id).isSome → id ∈ ids) :
    names.length ≤ ids.length :=
  (List.subperm_of_subset filling.indexed.distinct fun id member =>
    counted id (filling.live id member)).length_le

/-- Setting properties on an empty instance. -/
theorem setAll_ofClass (className : String) (properties : List (String × Live)) :
    properties.foldl (fun object property => object.set property.1 property.2)
      (Instance.ofClass className) = .ofList className properties := rfl

variable {slot : Nat} {snapshot : Snapshot} {rest : List (Slot × Snapshot)}
  {more : List Snapshot}

/-- The reconstruction after an instance is filled in. -/
def Rebuild.fillIn (types : TypeTable) (rebuild : Rebuild) (slot : Slot) (snapshot : Snapshot)
    (rest : List (Slot × Snapshot)) (more : List Snapshot) : Rebuild :=
  let placed := { rebuild with pending := rest }.placeAll types more
  { placed with
    heap := placed.heap.update slot fun object =>
      (carry placed.slot? snapshot.state.entries).foldl
        (fun object property => object.set property.1 property.2) object }

theorem pending_fillIn :
    (rebuild.fillIn types slot snapshot rest more).pending =
      ((more.zipIdx rebuild.heap.size).map Prod.swap).reverse ++ rest :=
  Rebuild.pending_placeAll types _ more

theorem slot?_fillIn {id : GlobalId} (absent : id ∉ more.map Snapshot.id) :
    (rebuild.fillIn types slot snapshot rest more).slot? id = rebuild.slot? id :=
  Rebuild.slot?_placeAll types { rebuild with pending := rest } absent

theorem get?_fillIn_of_ne {other : Nat} (different : slot ≠ other) :
    (rebuild.fillIn types slot snapshot rest more).heap.get? other =
      (rebuild.heap.instances ++
        more.map fun snapshot => .ofClass (classOf types snapshot))[other]? := by
  rw [Rebuild.fillIn, get?_update, if_neg different, Heap.get?, Rebuild.heap_placeAll]

theorem get?_fillIn_self
    (empty : rebuild.heap.get? slot = some (.ofClass (classOf types snapshot))) :
    (rebuild.fillIn types slot snapshot rest more).heap.get? slot =
      some (instanceOf types (rebuild.fillIn types slot snapshot rest more).slot? snapshot) := by
  have before : (({ rebuild with pending := rest } : Rebuild).placeAll types more).heap.get? slot =
      some (.ofClass (classOf types snapshot)) := by
    rw [Heap.get?, Rebuild.heap_placeAll, List.getElem?_append_left]
    · exact empty
    · exact (List.getElem?_eq_some_iff.mp empty).1
  rw [Rebuild.fillIn, get?_update, if_pos rfl, before, Option.map_some, setAll_ofClass]
  rfl

theorem Filling.indexed_fillIn (filling : Filling types scope live? root names rebuild)
    (distinct : (names ++ more.map Snapshot.id).Nodup) :
    (rebuild.fillIn types slot snapshot rest more).Indexed (names ++ more.map Snapshot.id) := by
  have same : ({ rebuild with pending := rest } : Rebuild).Indexed names :=
    ⟨filling.indexed.size, filling.indexed.distinct, filling.indexed.slot?_iff⟩
  have placed := same.placeAll types distinct
  refine ⟨?_, placed.distinct, placed.slot?_iff⟩
  rw [← placed.size]
  exact List.length_modify _ _ _

/-- An entry that waits newly stands at the slot of its node. -/
theorem mem_newly_iff {size : Nat} {entry : Nat × Snapshot} :
    entry ∈ ((more.zipIdx size).map Prod.swap).reverse ↔
      size ≤ entry.1 ∧ more[entry.1 - size]? = some entry.2 := by
  rw [List.mem_reverse, List.mem_map]
  constructor
  · rintro ⟨⟨other, index⟩, member, rfl⟩
    exact List.mem_zipIdx_iff_le_and_getElem?_sub.mp member
  · intro found
    exact ⟨entry.swap, List.mem_zipIdx_iff_le_and_getElem?_sub.mpr found, Prod.swap_swap entry⟩

section Step

variable (filling : Filling types scope live? root names rebuild)
  (next : rebuild.pending = (slot, snapshot) :: rest)
  (placed : Placed scope live? names snapshot.state.references more)

include filling next

/-- The slot that is filled in does not wait again. -/
theorem Filling.nodup_rest : slot ∉ rest.map Prod.fst ∧ (rest.map Prod.fst).Nodup := by
  have once := filling.once
  rwa [next, List.map_cons, List.nodup_cons] at once

/-- What still waits afterwards has waited at its slot or is placed behind all others. -/
theorem Filling.mem_pending_fillIn {entry : Slot × Snapshot}
    (waits : entry ∈ (rebuild.fillIn types slot snapshot rest more).pending) :
    (names.length ≤ entry.1 ∧ more[entry.1 - names.length]? = some entry.2) ∨
      (entry ∈ rest ∧ entry.1 < names.length) := by
  rw [pending_fillIn] at waits
  rcases List.mem_append.mp waits with newly | older
  · have found := mem_newly_iff.mp newly
    rw [filling.indexed.size] at found
    exact .inl found
  · have named := (filling.waiting entry (by simp [next, older])).1
    exact .inr ⟨older, (List.getElem?_eq_some_iff.mp named).1⟩

theorem Filling.waiting_fillIn (found : ∀ late ∈ more, live? late.id = some late)
    {entry : Slot × Snapshot}
    (waits : entry ∈ (rebuild.fillIn types slot snapshot rest more).pending) :
    (names ++ more.map Snapshot.id)[entry.1]? = some entry.2.id ∧
      live? entry.2.id = some entry.2 ∧
        (rebuild.fillIn types slot snapshot rest more).heap.get? entry.1 =
          some (.ofClass (classOf types entry.2)) := by
  have size : rebuild.heap.instances.length = names.length := filling.indexed.size
  have named := (filling.waiting (slot, snapshot) (by simp [next])).1
  have inside : slot < names.length := (List.getElem?_eq_some_iff.mp named).1
  rcases filling.mem_pending_fillIn next waits with ⟨above, newly⟩ | ⟨older, below⟩
  · have different : slot ≠ entry.1 := Nat.ne_of_lt (Nat.lt_of_lt_of_le inside above)
    refine ⟨?_, found _ (List.mem_of_getElem? newly), ?_⟩
    · rw [List.getElem?_append_right above, List.getElem?_map, newly]
      rfl
    · rw [get?_fillIn_of_ne different, List.getElem?_append_right (size ▸ above), size,
        List.getElem?_map, newly]
      rfl
  · obtain ⟨entry_named, entry_live, empty⟩ := filling.waiting entry (by simp [next, older])
    have different : slot ≠ entry.1 := by
      rintro rfl
      exact (filling.nodup_rest next).1 (List.mem_map_of_mem older)
    refine ⟨by rwa [List.getElem?_append_left below], entry_live, ?_⟩
    rw [get?_fillIn_of_ne different, List.getElem?_append_left (size ▸ below)]
    exact empty

theorem Filling.once_fillIn :
    ((rebuild.fillIn types slot snapshot rest more).pending.map Prod.fst).Nodup := by
  have newly : (((more.zipIdx rebuild.heap.size).map Prod.swap).reverse).map Prod.fst =
      (List.range' names.length more.length).reverse := by
    rw [List.map_reverse, List.map_map, ← filling.indexed.size,
      ← List.zipIdx_map_snd rebuild.heap.size more]
    rfl
  rw [pending_fillIn, List.map_append, newly, List.nodup_append']
  refine ⟨List.nodup_reverse.mpr List.nodup_range', (filling.nodup_rest next).2, ?_⟩
  intro other fresh older
  obtain ⟨entry, entry_mem, rfl⟩ := List.mem_map.mp older
  have named := (filling.waiting entry (by simp [next, entry_mem])).1
  have below : entry.1 < names.length := (List.getElem?_eq_some_iff.mp named).1
  have above : names.length ≤ entry.1 := (List.mem_range'_1.mp (List.mem_reverse.mp fresh)).1
  exact absurd above (Nat.not_le_of_lt below)

/-- What does not wait afterwards was placed before. -/
theorem Filling.inside_of_unwaiting {other : Nat} {id : GlobalId}
    (named : (names ++ more.map Snapshot.id)[other]? = some id)
    (unwaiting : other ∉ (rebuild.fillIn types slot snapshot rest more).pending.map Prod.fst) :
    other < names.length ∧ (slot = other ∨ other ∉ rebuild.pending.map Prod.fst) := by
  rw [pending_fillIn, List.map_append, List.mem_append, not_or] at unwaiting
  constructor
  · by_contra above
    rw [Nat.not_lt] at above
    rw [List.getElem?_append_right above, List.getElem?_map] at named
    obtain ⟨late, found, -⟩ := Option.map_eq_some_iff.mp named
    refine unwaiting.1 (List.mem_map.mpr ⟨(other, late), mem_newly_iff.mpr ?_, rfl⟩)
    rw [filling.indexed.size]
    exact ⟨above, found⟩
  · rw [next, List.map_cons, List.mem_cons, not_or]
    exact or_iff_not_imp_left.mpr fun different => ⟨Ne.symm different, unwaiting.2⟩

include placed

theorem Filling.filled_fillIn {other : Nat} {id : GlobalId}
    (other_named : (names ++ more.map Snapshot.id)[other]? = some id)
    (unwaiting : other ∉ (rebuild.fillIn types slot snapshot rest more).pending.map Prod.fst) :
    ∃ old, live? id = some old ∧
      (rebuild.fillIn types slot snapshot rest more).heap.get? other =
        some (instanceOf types (rebuild.fillIn types slot snapshot rest more).slot? old) ∧
      ∀ target ∈ old.state.references, Leads scope live? target →
        target ∈ names ++ more.map Snapshot.id := by
  obtain ⟨named, live, empty⟩ := filling.waiting (slot, snapshot) (by simp [next])
  obtain ⟨inside, was_unwaiting⟩ := filling.inside_of_unwaiting next other_named unwaiting
  rw [List.getElem?_append_left inside] at other_named
  by_cases same : slot = other
  · subst same
    rw [named, Option.some.injEq] at other_named
    subst other_named
    exact ⟨snapshot, live, get?_fillIn_self empty, placed.settled⟩
  · obtain ⟨old, old_live, stands, settled⟩ :=
      filling.filled other id other_named (was_unwaiting.resolve_left same)
    refine ⟨old, old_live, ?_, fun target refers leads =>
      List.mem_append_left _ (settled target refers leads)⟩
    rw [get?_fillIn_of_ne same, List.getElem?_append_left (List.getElem?_eq_some_iff.mp stands).1]
    refine stands.trans (congrArg some ?_)
    -- Nothing that this instance refers to is placed only now.
    refine congrArg (Instance.ofList _) (carry_congr fun target refers => ?_)
    refine (slot?_fillIn fun newly => ?_).symm
    obtain ⟨late, late_mem, rfl⟩ := List.mem_map.mp newly
    have before := settled _ refers (placed.needed late late_mem).2
    exact (List.nodup_append'.mp placed.distinct).2.2 before newly

/-- Filling in the next instance keeps the invariant. -/
theorem Filling.step :
    Filling types scope live? root (names ++ more.map Snapshot.id)
      (rebuild.fillIn types slot snapshot rest more) where
  indexed := filling.indexed_fillIn placed.distinct
  first := by
    rw [List.getElem?_append_left (List.getElem?_eq_some_iff.mp filling.first).1]
    exact filling.first
  waiting _ waits := filling.waiting_fillIn next placed.found waits
  once := filling.once_fillIn next
  filled _ _ named unwaiting := filling.filled_fillIn next placed named unwaiting
  linked := by
    obtain ⟨named, live, -⟩ := filling.waiting (slot, snapshot) (by simp [next])
    refine List.forall_mem_append.mpr ⟨filling.linked, fun id member => ?_⟩
    obtain ⟨late, late_mem, rfl⟩ := List.mem_map.mp member
    obtain ⟨refers, leads⟩ := placed.needed late late_mem
    exact .step (filling.linked _ (List.mem_of_getElem? named)) live refers leads
  live := by
    refine List.forall_mem_append.mpr ⟨filling.live, fun id member => ?_⟩
    obtain ⟨late, late_mem, rfl⟩ := List.mem_map.mp member
    exact (placed.needed late late_mem).2.2

end Step

/-- With enough room, filling ends with the rebuilt heap, however much room there is. -/
theorem fill_spec (source : Source store query live?) {ids : List GlobalId}
    (counted : ∀ id, (live? id).isSome → id ∈ ids) {need : Nat}
    (filling : Filling types scope live? root names rebuild)
    (enough : ids.length + rebuild.pending.length ≤ need + names.length) :
    ∃ heap names link,
      (∀ room, need ≤ room → fill types store query scope room rebuild = .ok heap) ∧
      Rebuilt types scope live? root names link heap := by
  induction need generalizing names rebuild with
  | zero =>
      have short := filling.length_le counted
      have done : rebuild.pending = [] := List.eq_nil_of_length_eq_zero (by omega)
      refine ⟨rebuild.heap, names, rebuild.slot?, fun room _ => ?_, filling.finish done⟩
      rw [fill.eq_def]
      simp only [done]
  | succ need induction =>
      cases next : rebuild.pending with
      | nil =>
          refine ⟨rebuild.heap, names, rebuild.slot?, fun room _ => ?_, filling.finish next⟩
          rw [fill.eq_def]
          simp only [next]
      | cons entry rest =>
          obtain ⟨slot, snapshot⟩ := entry
          have same : ({ rebuild with pending := rest } : Rebuild).Indexed names :=
            ⟨filling.indexed.size, filling.indexed.distinct, filling.indexed.slot?_iff⟩
          have rebuilds : RebuildsTo types scope live? names _ _ _ _ :=
            rebuildProperties_spec source same snapshot.state.entries
          obtain ⟨more, placed, rebuilt⟩ := rebuilds
          have stepped := filling.step next placed
          have waiting : (rebuild.fillIn types slot snapshot rest more).pending.length =
              more.length + rest.length := by
            rw [pending_fillIn]
            simp
          rw [next, List.length_cons] at enough
          obtain ⟨heap, final, link, fills, done⟩ := induction stepped (by
            rw [waiting, List.length_append, List.length_map]
            omega)
          refine ⟨heap, final, link, fun room suffices_room => ?_, done⟩
          cases room with
          | zero => omega
          | succ room =>
              rw [fill.eq_def]
              simp only [next, rebuilt]
              exact fills room (by omega)

theorem filling_start {snapshot : Snapshot} (found : live? snapshot.id = some snapshot) :
    Filling types scope live? snapshot.id [snapshot.id]
      (Rebuild.empty.place (classOf types snapshot) snapshot) where
  indexed := Rebuild.indexed_empty.place List.not_mem_nil (classOf types snapshot)
  first := rfl
  waiting entry member := by
    obtain rfl := List.mem_singleton.mp member
    exact ⟨rfl, found, rfl⟩
  once := List.nodup_singleton _
  filled slot id named unwaiting := by
    have below := (List.getElem?_eq_some_iff.mp named).1
    have first : slot = 0 := by simpa using below
    exact absurd (List.mem_singleton.mpr first) unwaiting
  linked id member := List.mem_singleton.mp member ▸ .root
  live id member := by
    rw [List.mem_singleton.mp member, found]
    rfl

/-- The shadow of a live snapshot is the heap rebuilt from it. -/
theorem ofSnapshot_spec (source : Source store query live?) (types : TypeTable)
    (scope : ShadowScope) {snapshot : Snapshot} (found : live? root = some snapshot) :
    ∃ heap names link,
      ofSnapshot types store query scope snapshot = .ok ⟨heap, 0, snapshot.commit⟩ ∧
        Rebuilt types scope live? root names link heap := by
  obtain rfl := source.named root snapshot found
  obtain ⟨ids, few, counted⟩ := source.counted
  have start : Filling types scope live? snapshot.id [snapshot.id] _ := filling_start found
  obtain ⟨heap, names, link, fills, rebuilt⟩ := fill_spec source counted start
    (Nat.le_refl (ids.length + 1))
  exact ⟨heap, names, link, by rw [ofSnapshot, fills _ few]; rfl, rebuilt⟩

/-- A shadow is rebuilt from the live snapshot of its root, if there is one. -/
theorem of_eq (source : Source store query live?) (types : TypeTable) {scheme : CommitIdScheme}
    {selector : VersionSelector} (selects : selector.query store scheme = .ok query)
    (id : GlobalId) (scope : ShadowScope) :
    Shadow.of types store scheme id selector scope =
      match live? id with
      | none => .error (.notFound id)
      | some snapshot => (ofSnapshot types store query scope snapshot).mapError .store := by
  rw [Shadow.of, selects]
  simp only [bind, Except.bind, source.answers]
  cases live? id <;> rfl

end Filling

section Sources

variable {σ τ : Type} [Store σ] [Store τ] {types : TypeTable} {store : σ} {other : τ}
  {query query' : Query} {scope : ShadowScope} {live? : GlobalId → Option Snapshot}

variable {R : ∀ {α : Type}, Except StoreError α → Except StoreError α → Prop}

theorem rebuildRef_related (compatible : Compatible R)
    (related : ∀ id, R (Store.live? store id query) (Store.live? other id query'))
    (id : GlobalId) (rebuild : Rebuild) :
    R (rebuildRef types store query scope id rebuild)
      (rebuildRef types other query' scope id rebuild) := by
  unfold rebuildRef
  split
  · exact compatible.ok _
  · split
    · exact compatible.ok _
    · refine compatible.bind (related id) fun found => ?_
      cases found with
      | none | some => exact compatible.ok _

mutual

theorem rebuildValue_related (compatible : Compatible R)
    (related : ∀ id, R (Store.live? store id query) (Store.live? other id query'))
    (value : Captured) (rebuild : Rebuild) :
    R (rebuildValue types store query scope value rebuild)
      (rebuildValue types other query' scope value rebuild) := by
  cases value with
  | null | scalar => simp only [rebuildValue, compatible.ok]
  | ref id => simp only [rebuildValue, rebuildRef_related compatible related]
  | seq items =>
      simp only [rebuildValue]
      exact compatible.bind (rebuildItems_related compatible related items rebuild)
        fun _ => compatible.ok _
  | map entries =>
      simp only [rebuildValue]
      exact compatible.bind (rebuildEntries_related compatible related entries rebuild)
        fun _ => compatible.ok _

theorem rebuildItems_related (compatible : Compatible R)
    (related : ∀ id, R (Store.live? store id query) (Store.live? other id query'))
    (items : List Captured) (rebuild : Rebuild) :
    R (rebuildItems types store query scope items rebuild)
      (rebuildItems types other query' scope items rebuild) := by
  cases items with
  | nil => simp only [rebuildItems, compatible.ok]
  | cons item rest =>
      simp only [rebuildItems]
      exact compatible.bind (rebuildValue_related compatible related item rebuild) fun rebuilt =>
        compatible.bind (rebuildItems_related compatible related rest rebuilt.2)
          fun _ => compatible.ok _

theorem rebuildEntries_related (compatible : Compatible R)
    (related : ∀ id, R (Store.live? store id query) (Store.live? other id query'))
    (entries : List (Captured × Captured)) (rebuild : Rebuild) :
    R (rebuildEntries types store query scope entries rebuild)
      (rebuildEntries types other query' scope entries rebuild) := by
  cases entries with
  | nil => simp only [rebuildEntries, compatible.ok]
  | cons entry rest =>
      obtain ⟨key, value⟩ := entry
      simp only [rebuildEntries]
      exact compatible.bind (rebuildValue_related compatible related key rebuild) fun rebuilt =>
        compatible.bind (rebuildValue_related compatible related value rebuilt.2) fun rebuilt =>
          compatible.bind (rebuildEntries_related compatible related rest rebuilt.2)
            fun _ => compatible.ok _

end

theorem rebuildProperties_related (compatible : Compatible R)
    (related : ∀ id, R (Store.live? store id query) (Store.live? other id query'))
    (entries : List (String × Captured)) (rebuild : Rebuild) :
    R (rebuildProperties types store query scope entries rebuild)
      (rebuildProperties types other query' scope entries rebuild) := by
  induction entries generalizing rebuild with
  | nil => exact compatible.ok _
  | cons entry rest induction =>
      obtain ⟨name, value⟩ := entry
      simp only [rebuildProperties]
      exact compatible.bind (rebuildValue_related compatible related value rebuild) fun rebuilt =>
        compatible.bind (induction rebuilt.2) fun _ => compatible.ok _

/-- Filling asks a store for live snapshots only, so it is related over two stores as their answers
are. -/
theorem fill_related (compatible : Compatible R)
    (related : ∀ id, R (Store.live? store id query) (Store.live? other id query'))
    (room : Nat) (rebuild : Rebuild) :
    R (fill types store query scope room rebuild) (fill types other query' scope room rebuild) := by
  induction room generalizing rebuild with
  | zero =>
      rw [fill.eq_def, fill.eq_def types other]
      cases next : rebuild.pending <;> simp only [next, compatible.ok]
  | succ room induction =>
      rw [fill.eq_def, fill.eq_def types other]
      cases next : rebuild.pending with
      | nil => simp only [next, compatible.ok]
      | cons =>
          simp only [next]
          refine compatible.bind (rebuildProperties_related compatible related _ _) ?_
          exact fun _ => induction _

/-- Stores in which the same live snapshots are found rebuild the same shadow. -/
theorem ofSnapshot_congr (source : Source store query live?) (source' : Source other query' live?)
    (types : TypeTable) (scope : ShadowScope) {root : GlobalId} {snapshot : Snapshot}
    (found : live? root = some snapshot) :
    ofSnapshot types store query scope snapshot = ofSnapshot types other query' scope snapshot := by
  obtain rfl := source.named root snapshot found
  obtain ⟨ids, few, counted⟩ := source.counted
  obtain ⟨ids', few', counted'⟩ := source'.counted
  have start : Filling types scope live? snapshot.id [snapshot.id] _ := filling_start found
  have same (id : GlobalId) : Store.live? store id query = Store.live? other id query' := by
    rw [source.answers, source'.answers]
  obtain ⟨heap, _, _, fills, -⟩ := fill_spec source counted start (Nat.le_refl (ids.length + 1))
  obtain ⟨heap', _, _, fills', -⟩ :=
    fill_spec source' counted' start (Nat.le_refl (ids'.length + 1))
  -- Both have enough room, so they can be given the same.
  have heaps : heap = heap' := by
    have larger := fills (max ids.length ids'.length) (Nat.le_max_left _ _)
    rw [fill_related compatible_eq same, fills' _ (Nat.le_max_right _ _)] at larger
    exact (Except.ok.inj larger).symm
  rw [ofSnapshot, ofSnapshot, fills _ few, fills' _ few', heaps]

end Sources

end AuditTrail.Shadow
