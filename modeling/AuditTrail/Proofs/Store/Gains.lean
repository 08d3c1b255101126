import AuditTrail.Proofs.Codec.Plain
import AuditTrail.Proofs.Except
import AuditTrail.Proofs.Store.Keys
import AuditTrail.Proofs.Store.Memory
import AuditTrail.Store.Backend

/-!
# What a stored commit adds

A store that takes a commit, whatever it is, holds the commit and what it held before.  Nodes that
the commit does not write are answered for as before, the history of any other one gains what the
commit writes of it, and the metadata of the commit are found besides those of others.
-/

namespace AuditTrail

theorem CommitRow.isOf_eq (row : CommitRow) (id : CommitId) (snapshot : Snapshot) :
    row.isOf id = (row.major == (SnapshotRow.ofSnapshot id snapshot).major &&
      row.minor == (SnapshotRow.ofSnapshot id snapshot).minor) := by
  simp only [isOf, SnapshotRow.ofSnapshot]

namespace MemoryStore

variable {store after : MemoryStore} {commit : Commit}

/-- The store with a commit added. -/
def adding (store : MemoryStore) (commit : Commit) : MemoryStore :=
  ⟨store.commits.put commit.metadata, commit.snapshots.reverse ++ store.snapshots⟩

theorem of_persist (persisted : store.persist commit = .ok after) :
    commit.id ∉ store.commits.keys ∧ after = store.adding commit := by
  unfold persist at persisted
  split_ifs at persisted with taken
  split at persisted
  · cases persisted
  · refine ⟨fun known => taken ?_, (Except.ok.inj persisted).symm⟩
    rw [Table.contains_eq, Table.isSome_find?_iff]
    exact known

theorem history_adding (store : MemoryStore) (commit : Commit) (id : GlobalId) :
    (store.adding commit).history id =
      (commit.snapshots.filter fun snapshot => snapshot.id == id).reverse ++ store.history id := by
  rw [history, adding, List.filter_append, List.filter_reverse, history]

/-- The highest id is the greater of the one before and that of the commit. -/
theorem head_adding (store : MemoryStore) (commit : Commit) :
    Store.head? (store.adding commit) =
      if (Store.head? store).all (fun head => compare head commit.id == .lt) then some commit.id
      else Store.head? store := by
  have member {id : CommitId} : id ∈ (store.adding commit).commits.keys ↔
      id = commit.id ∨ id ∈ store.commits.keys := Table.mem_keys_put_iff
  by_cases above : (Store.head? store).all fun head => compare head commit.id == .lt
  · rw [if_pos above, head?_eq_some_iff]
    refine ⟨member.mpr (.inl rfl), fun id known => ?_⟩
    rcases member.mp known with rfl | stored
    · exact Std.ReflCmp.isLE_rfl
    · obtain ⟨head, found, id_le⟩ := exists_head stored
      rw [found, Option.all_some, beq_iff_eq] at above
      exact Std.TransCmp.isLE_trans id_le (Ordering.isLE_of_eq_lt above)
  · obtain ⟨head, found, not_above⟩ :
        ∃ head, Store.head? store = some head ∧ compare head commit.id ≠ .lt := by
      simpa [Option.all_eq_true] using above
    obtain ⟨stored, greatest⟩ := head?_eq_some_iff.mp found
    rw [if_neg above, found, head?_eq_some_iff]
    refine ⟨member.mpr (.inr stored), fun id known => ?_⟩
    rcases member.mp known with rfl | before
    · exact Std.OrientedCmp.isLE_of_isGE (Ordering.isGE_iff_ne_lt.mpr not_above)
    · exact greatest id before

/-- The highest sequence is the greater of the one before and that of the commit. -/
theorem lastSequence_adding (fresh : commit.id ∉ store.commits.keys) :
    Store.lastSequence (store.adding commit) =
      max (Store.lastSequence store) commit.metadata.sequence := by
  have bound (store : MemoryStore) {limit : Nat} : Store.lastSequence store ≤ limit ↔
      ∀ metadata ∈ store.commits.rows, metadata.sequence ≤ limit := by
    refine foldl_max_le_iff.trans ((and_iff_right (Nat.zero_le limit)).trans ?_)
    rw [List.forall_mem_map]
  have member {metadata : CommitMetadata} : metadata ∈ (store.adding commit).commits.rows ↔
      metadata = commit.metadata ∨ metadata ∈ store.commits.rows := by
    refine Table.mem_put_iff.trans (or_congr_right (and_iff_left_of_imp fun stored same => ?_))
    exact fresh (List.mem_map.mpr ⟨metadata, stored, same⟩)
  refine eq_of_forall_ge_iff fun limit => ?_
  rw [max_le_iff, bound, bound]
  simp [member, or_imp, forall_and, and_comm]

end MemoryStore

namespace RowStore

variable {store after : RowStore} {commit : Commit}

/-- The store with a commit added. -/
def adding (store : RowStore) (commit : Commit) : RowStore :=
  ⟨store.commits ++ [.ofMetadata commit.metadata],
    store.snapshots ++ commit.snapshots.map (SnapshotRow.ofSnapshot commit.id)⟩

/-- What a row says of its snapshot. -/
def readRow (row : SnapshotRow) : Except StoreError Snapshot :=
  Payload.decode "snapshot" Snapshot.decode? row.payload

/-- What is read of a written snapshot is of the node that was written. -/
theorem id_of_readRow {id : CommitId} {snapshot found : Snapshot}
    (read : readRow (.ofSnapshot id snapshot) = .ok found) : found.id = snapshot.id := by
  rw [readRow, SnapshotRow.ofSnapshot,
    Payload.decode_encode_eq (by decide) _ snapshot.plain_encode] at read
  cases decoded : Snapshot.decode? (Codec.nestingLimit - 1) snapshot.encode with
  | none => rw [decoded] at read; cases read
  | some other =>
      rw [decoded] at read
      rw [← Except.ok.inj read]
      exact Snapshot.id_of_decode? decoded

/-- What the tables always satisfy: snapshots belong to commits and to the nodes that their keys
name, and none conflicts with another. -/
structure Sound (store : RowStore) : Prop where
  /-- What is read from a row is of the node that its key names. -/
  named : ∀ row ∈ store.snapshots, ∀ snapshot, readRow row = .ok snapshot →
    SnapshotRow.keyOf snapshot.id = row.key
  /-- The commit of every snapshot row has a row. -/
  filed : ∀ row ∈ store.snapshots, ∃ commit ∈ store.commits,
    commit.major = row.major ∧ commit.minor = row.minor
  /-- No two snapshot rows have the same node and version. -/
  separate : Separate store.snapshots

theorem sound_empty : empty.Sound :=
  ⟨fun _ member => (nomatch member), fun _ member => (nomatch member), .nil⟩

/-- A commit that is stored is new, and is added without a conflict. -/
theorem Sound.of_persist (sound : store.Sound) (persisted : store.persist commit = .ok after) :
    store.commitRow? commit.id = none ∧ after = store.adding commit ∧ after.Sound := by
  obtain ⟨fresh, apart, separate, added⟩ := RowStore.of_persist persisted
  have added : after = store.adding commit := added
  refine ⟨fresh, added, fun row member found read => ?_, fun row member => ?_, ?_⟩
  · rw [added] at member
    rcases List.mem_append.mp member with old | new
    · exact sound.named row old found read
    · obtain ⟨snapshot, -, rfl⟩ := List.mem_map.mp new
      exact congrArg SnapshotRow.keyOf (id_of_readRow read)
  · rw [added] at member ⊢
    rcases List.mem_append.mp member with old | new
    · obtain ⟨other, stored, same⟩ := sound.filed row old
      exact ⟨other, List.mem_append_left _ stored, same⟩
    · obtain ⟨snapshot, -, rfl⟩ := List.mem_map.mp new
      exact ⟨.ofMetadata commit.metadata, List.mem_append_right _ (List.mem_singleton_self _), rfl,
        rfl⟩
  · rw [added]
    exact List.pairwise_append.mpr ⟨sound.separate, separate,
      fun older stored newer written => apart newer written older stored⟩

/-- Whether the columns of a commit lie within the bound of a query, if there is one. -/
def admitsCommit (query : Query) (row : CommitRow) : Bool :=
  match query.bound with
  | none => true
  | some bound => bound.admitsRow row

/-- The rows that a query matches whatever its limit, in the order of writing. -/
def selected (store : RowStore) (id : GlobalId) (query : Query) : List SnapshotRow :=
  store.snapshots.filter fun row => row.key == SnapshotRow.keyOf id && store.admits query row

theorem matching_eq (store : RowStore) (id : GlobalId) (query : Query) :
    store.matching id query =
      query.cut ((store.selected id query).mergeSort fun a b => b.version ≤ a.version) := rfl

theorem mem_of_matching {id : GlobalId} {query : Query} {row : SnapshotRow}
    (matched : row ∈ store.matching id query) :
    row ∈ store.snapshots ∧ row.key = SnapshotRow.keyOf id := by
  have sorted := (query.cut_sublist _).subset matched
  obtain ⟨stored, selected⟩ := List.mem_filter.mp (List.mem_mergeSort.mp sorted)
  rw [Bool.and_eq_true, beq_iff_eq] at selected
  exact ⟨stored, selected.1⟩

theorem admits_eq (store : RowStore) (query : Query) (row : SnapshotRow) :
    store.admits query row = store.commits.any fun commit =>
      commit.major == row.major && commit.minor == row.minor && admitsCommit query commit := rfl

/-- A new commit brings nothing to light that was written before. -/
theorem admits_adding (sound : store.Sound) (fresh : store.commitRow? commit.id = none)
    (query : Query) {row : SnapshotRow} (member : row ∈ store.snapshots) :
    (store.adding commit).admits query row = store.admits query row := by
  obtain ⟨other, stored, major, minor⟩ := sound.filed row member
  have apart : ¬ other.isOf commit.id := List.find?_eq_none.mp fresh other stored
  have unrelated : ((CommitRow.ofMetadata commit.metadata).major == row.major &&
      (CommitRow.ofMetadata commit.metadata).minor == row.minor) = false := by
    rw [Bool.eq_false_iff]
    intro same
    rw [Bool.and_eq_true, beq_iff_eq, beq_iff_eq, ← major, ← minor] at same
    apply apart
    rw [CommitRow.isOf, ← same.1, ← same.2]
    exact commit.isOf_id
  rw [admits_eq, admits_eq, adding, List.any_append, List.any_cons, List.any_nil, unrelated,
    Bool.false_and, Bool.or_false, Bool.or_false]

/-- What a new commit writes lies within a bound if the commit does. -/
theorem admits_adding_self (fresh : store.commitRow? commit.id = none) (query : Query)
    (snapshot : Snapshot) :
    (store.adding commit).admits query (.ofSnapshot commit.id snapshot) =
      admitsCommit query (.ofMetadata commit.metadata) := by
  have unrelated : (store.commits.any fun other =>
      other.isOf commit.id && admitsCommit query other) = false := by
    refine List.any_eq_false.mpr fun other stored same => ?_
    exact List.find?_eq_none.mp fresh other stored (Bool.and_eq_true_iff.mp same).1
  simp only [admits_eq, ← CommitRow.isOf_eq]
  rw [adding, List.any_append, unrelated, List.any_cons, List.any_nil, commit.isOf_id,
    Bool.true_and, Bool.or_false, Bool.false_or]

/-- A query matches what it matched before, and what the commit writes of the node. -/
theorem selected_adding (sound : store.Sound) (fresh : store.commitRow? commit.id = none)
    (id : GlobalId) (query : Query) :
    (store.adding commit).selected id query =
      store.selected id query ++ (commit.snapshots.filter fun snapshot =>
        snapshot.id == id && admitsCommit query (.ofMetadata commit.metadata)).map
          (SnapshotRow.ofSnapshot commit.id) := by
  have split : (store.adding commit).snapshots =
    store.snapshots ++ commit.snapshots.map (SnapshotRow.ofSnapshot commit.id) := rfl
  rw [selected, split, List.filter_append, List.filter_map]
  refine congrArg₂ (· ++ ·) (List.filter_congr fun row member => ?_)
    (congrArg _ (List.filter_congr fun snapshot _ => ?_))
  · rw [admits_adding sound fresh query member]
  · have key_eq : ((SnapshotRow.ofSnapshot commit.id snapshot).key == SnapshotRow.keyOf id) =
        (snapshot.id == id) := by
      rw [Bool.eq_iff_iff, beq_iff_eq, beq_iff_eq]
      exact SnapshotRow.keyOf_injective.eq_iff
    rw [Function.comp_apply, admits_adding_self fresh, key_eq]

/-- The rows of a node have distinct versions. -/
theorem Sound.versions_nodup (sound : store.Sound) (id : GlobalId) (query : Query) :
    ((store.selected id query).map (·.version)).Nodup := by
  refine List.pairwise_map.mpr ((sound.separate.filter _).imp_of_mem ?_)
  intro older newer older_mem newer_mem separate same
  have keyed {row : SnapshotRow} (member : row ∈ store.selected id query) :
      row.key = SnapshotRow.keyOf id := by
    have matched := (List.mem_filter.mp member).2
    rw [Bool.and_eq_true, beq_iff_eq] at matched
    exact matched.1
  apply separate
  rw [SnapshotRow.conflicts, keyed older_mem, keyed newer_mem, same, Bool.and_eq_true, beq_iff_eq,
    beq_iff_eq]
  exact ⟨rfl, rfl⟩

/-- Rows of distinct versions keep their order when others are sorted in. -/
theorem sublist_mergeSort_append {rows others : List SnapshotRow}
    (distinct : ((rows ++ others).map (·.version)).Nodup) :
    (rows.mergeSort fun a b => b.version ≤ a.version).Sublist
      ((rows ++ others).mergeSort fun a b => b.version ≤ a.version) := by
  have kept : ((rows ++ others).filter fun row => row ∈ rows) = rows := by
    rw [List.filter_append, List.filter_eq_self.mpr fun row member => decide_eq_true member,
      List.filter_eq_nil_iff.mpr, List.append_nil]
    intro row other known
    have apart := (List.nodup_append.mp (List.map_append ▸ distinct)).2.2
    exact apart _ (List.mem_map_of_mem (of_decide_eq_true known)) _ (List.mem_map_of_mem other) rfl
  have perm := (rows ++ others).mergeSort_perm fun a b => b.version ≤ a.version
  have sorted_distinct := (perm.map (·.version)).nodup_iff.mpr distinct
  have picked_perm := perm.filter fun row => row ∈ rows
  rw [kept] at picked_perm
  have picked : (rows.mergeSort fun a b => b.version ≤ a.version) =
      ((rows ++ others).mergeSort fun a b => b.version ≤ a.version).filter fun row => row ∈ rows :=
    eq_of_descending ((List.filter_sublist.map _).nodup sorted_distinct)
      ((rows.mergeSort_perm _).trans picked_perm.symm) (pairwise_mergeSort rows)
      ((pairwise_mergeSort (rows ++ others)).filter _)
  rw [picked]
  exact List.filter_sublist

theorem metadata?_adding_self (fits : commit.metadata.Fits)
    (fresh : store.commitRow? commit.id = none) :
    Store.metadata? (store.adding commit) commit.id = .ok (some commit.metadata) := by
  have found : (store.adding commit).commitRow? commit.id = some (.ofMetadata commit.metadata) := by
    rw [commitRow?, adding, List.find?_append, ← commitRow?, fresh, Option.none_or,
      List.find?_singleton, if_pos commit.isOf_id]
  have read : Payload.decode "commit" CommitMetadata.decode?
      (Payload.encode "commit" commit.metadata.encode) = .ok commit.metadata :=
    Payload.decode_encode (by decide) (CommitMetadata.readsAs_encode fits)
      (commit.metadata.depth_encode.le.trans (by decide))
  change metadata? _ _ = _
  rw [metadata?, found]
  exact congrArg (Except.map some) read

theorem metadata?_adding_of_ne (fits : commit.metadata.Fits) {id : CommitId} (id_fits : id.Fits)
    (other : id ≠ commit.id) :
    Store.metadata? (store.adding commit) id = Store.metadata? store id := by
  have unrelated : ¬ (CommitRow.ofMetadata commit.metadata).isOf id := fun same =>
    other ((CommitRow.isOf_ofMetadata_iff fits.1 id_fits).mp same).symm
  have found : (store.adding commit).commitRow? id = store.commitRow? id := by
    rw [commitRow?, adding, List.find?_append, ← commitRow?, List.find?_singleton,
      if_neg unrelated, Option.or_none]
  change metadata? _ _ = metadata? _ _
  rw [metadata?, metadata?, found]

/-- The highest id is the greater of the one before and that of the commit, by columns. -/
theorem head_adding (fits : commit.metadata.Fits) (store : RowStore) :
    Store.head? (store.adding commit) =
      if store.headRow?.all (CommitRow.ofMetadata commit.metadata).isAbove then some commit.id
      else Store.head? store := by
  have head_eq (store : RowStore) : Store.head? store = store.headRow?.map CommitRow.id := rfl
  have id_eq : (CommitRow.ofMetadata commit.metadata).id = commit.id :=
    CommitRow.id_ofMetadata fits.1
  rw [head_eq, head_eq, headRow?, adding, List.foldl_append, ← headRow?, List.foldl_cons,
    List.foldl_nil]
  cases store.headRow? with
  | none => exact congrArg some id_eq
  | some head =>
      rw [Option.all_some]
      by_cases above : (CommitRow.ofMetadata commit.metadata).isAbove head
      · simp only [above, if_true, Option.map_some, id_eq]
      · simp only [above, Bool.false_eq_true, if_false]

/-- The highest sequence is the greater of the one before and that of the commit, by columns. -/
theorem lastSequence_adding (fits : commit.metadata.Fits) (store : RowStore) :
    Store.lastSequence (store.adding commit) =
      if (store.commits.map (·.sequence)).max?.all (· ≤ Column.ofNat commit.metadata.sequence) then
        commit.metadata.sequence
      else Store.lastSequence store := by
  have last_eq (store : RowStore) : Store.lastSequence store =
      Column.toNat 64 ((store.commits.map (·.sequence)).max?.getD 0) := rfl
  have column : (CommitRow.ofMetadata commit.metadata).sequence =
      Column.ofNat commit.metadata.sequence := by rw [CommitRow.ofMetadata]
  have read : Column.toNat 64 (Column.ofNat commit.metadata.sequence) = commit.metadata.sequence :=
    Column.toNat_ofNat fits.2.2
  rw [last_eq, last_eq, adding, List.map_append, List.map_cons, List.map_nil, column]
  cases store.commits.map (·.sequence) with
  | nil =>
      rw [List.nil_append, List.max?_singleton, Option.getD_some, read, List.max?_nil,
        Option.all_none, if_pos rfl]
  | cons first rest =>
      rw [List.cons_append, List.max?_cons', List.max?_cons', List.foldl_append, List.foldl_cons,
        List.foldl_nil, Option.all_some, Option.getD_some, Option.getD_some, max_def]
      by_cases above : rest.foldl max first ≤ Column.ofNat commit.metadata.sequence
      · rw [if_pos above, if_pos (decide_eq_true above), read]
      · rw [if_neg above, if_neg (by simpa using above)]

end RowStore

/-- All of some answers have values if they are these values. -/
theorem mapM_self_eq_ok_iff {ε α : Type} {answers : List (Except ε α)} {values : List α} :
    answers.mapM (fun answer => answer) = .ok values ↔ answers = values.map .ok := by
  induction answers generalizing values with
  | nil => cases values <;> simp [pure, Except.pure]
  | cons answer rest induction =>
      rw [List.mapM_cons, bind_eq_ok_iff]
      constructor
      · rintro ⟨value, rfl, others⟩
        obtain ⟨later, read, same⟩ := bind_eq_ok_iff.mp others
        rw [← Except.ok.inj same, List.map_cons, induction.mp read]
      · intro same
        cases values with
        | nil => cases same
        | cons value later =>
            obtain ⟨rfl, rest_eq⟩ := List.cons.inj same
            exact ⟨value, rfl, bind_eq_ok_iff.mpr ⟨later, induction.mpr rest_eq, rfl⟩⟩

/-- Answers that all have values are given by these. -/
theorem eq_map_toOption {ε α : Type} {answers : List (Except ε α)}
    (answered : ∀ answer ∈ answers, ∃ value, answer = .ok value) :
    answers = (answers.filterMap Except.toOption).map .ok := by
  induction answers with
  | nil => rfl
  | cons answer rest induction =>
      obtain ⟨⟨value, rfl⟩, later⟩ := List.forall_mem_cons.mp answered
      exact congrArg (Except.ok value :: ·) (induction later)

namespace Backend

/-- The tables satisfy what tables always satisfy. -/
def Sound : Backend → Prop
  | memory _ | unwritable _ => True
  | rows store => store.Sound

/-- The backend with a commit added. -/
def adding (backend : Backend) (commit : Commit) : Backend :=
  match backend with
  | memory store => memory (store.adding commit)
  | rows store => rows (store.adding commit)
  | unwritable store => unwritable store

/-- A snapshot as it is read once it has been written. -/
def read (backend : Backend) (snapshot : Snapshot) : Except StoreError Snapshot :=
  match backend with
  | memory _ | unwritable _ => .ok snapshot
  | rows _ =>
    Payload.decode "snapshot" Snapshot.decode? (Payload.encode "snapshot" snapshot.encode)

/-- Whether a snapshot that a commit writes lies within the bound of a query. -/
def admits (backend : Backend) (query : Query) (commit : Commit) (snapshot : Snapshot) : Bool :=
  match backend with
  | memory _ | unwritable _ => query.admits snapshot
  | rows _ => RowStore.admitsCommit query (.ofMetadata commit.metadata)

/-- The snapshots that a query matches, each as it is read. -/
def found (backend : Backend) (id : GlobalId) (query : Query) : List (Except StoreError Snapshot) :=
  match backend with
  | memory store | unwritable store => (query.select (store.history id)).map .ok
  | rows store => (store.matching id query).map RowStore.readRow

/-- A query is answered with what it matches if all of that is read. -/
theorem snapshotsOf_eq (backend : Backend) (id : GlobalId) (query : Query) :
    Store.snapshotsOf backend id query = (backend.found id query).mapM fun answer => answer := by
  cases backend with
  | memory store => exact (mapM_self_eq_ok_iff.mpr rfl).symm
  | unwritable store => exact (mapM_self_eq_ok_iff.mpr rfl).symm
  | rows store =>
      change (store.matching id query).mapM RowStore.readRow = _
      rw [found, List.mapM_map]
      rfl

/-- The newest snapshot that a query finds is one that it matches. -/
theorem mem_found_of_first? {backend : Backend} {id : GlobalId} {query : Query}
    {snapshot : Snapshot} (first : Store.first? backend id query = .ok (some snapshot)) :
    .ok snapshot ∈ backend.found id query := by
  obtain ⟨snapshots, answered, head⟩ := bind_eq_ok_iff.mp first
  rw [snapshotsOf_eq, mapM_self_eq_ok_iff] at answered
  rw [answered]
  exact List.mem_map_of_mem (List.mem_of_mem_head? (Except.ok.inj head))

/-- The nodes that snapshots can be read of, once for each snapshot. -/
def ids : Backend → List GlobalId
  | memory store | unwritable store => store.snapshots.map Snapshot.id
  | rows store =>
    store.snapshots.filterMap fun row => (RowStore.readRow row).toOption.map Snapshot.id

theorem length_ids_le (backend : Backend) : backend.ids.length ≤ Store.snapshotCount backend := by
  cases backend with
  | memory | unwritable => exact (List.length_map _).le
  | rows => exact List.length_filterMap_le _ _

/-- What a query matches is of the node that it asks for if it can be read. -/
theorem Sound.of_mem_found {backend : Backend} {id : GlobalId} {query : Query}
    {snapshot : Snapshot} (sound : backend.Sound) (member : .ok snapshot ∈ backend.found id query) :
    snapshot.id = id ∧ id ∈ backend.ids := by
  have in_memory (store : MemoryStore)
      (member : .ok snapshot ∈ (query.select (store.history id)).map
        (.ok : Snapshot → Except StoreError Snapshot)) :
      snapshot.id = id ∧ id ∈ store.snapshots.map Snapshot.id := by
    obtain ⟨other, selected, same⟩ := List.mem_map.mp member
    obtain ⟨stored, named⟩ := List.mem_filter.mp (Query.mem_of_select selected)
    obtain rfl := Except.ok.inj same
    obtain rfl := beq_iff_eq.mp named
    exact ⟨rfl, List.mem_map_of_mem stored⟩
  cases backend with
  | memory store => exact in_memory store member
  | unwritable store => exact in_memory store member
  | rows store =>
      obtain ⟨row, matched, read⟩ := List.mem_map.mp member
      obtain ⟨stored, keyed⟩ := RowStore.mem_of_matching matched
      have named := RowStore.Sound.named sound row stored snapshot read
      have same := SnapshotRow.keyOf_injective (named.trans keyed)
      exact ⟨same, List.mem_filterMap.mpr ⟨row, stored, by rw [read, ← same]; rfl⟩⟩

/-- Whether the id of a commit is above the highest one that is stored.  Rows are compared by their
columns. -/
def outranks (backend : Backend) (commit : Commit) : Bool :=
  match backend with
  | memory store | unwritable store =>
    (Store.head? store).all fun head => compare head commit.id == .lt
  | rows store => store.headRow?.all (CommitRow.ofMetadata commit.metadata).isAbove

/-- Whether the sequence of a commit is no less than the highest one that is stored.  Rows are
compared by their columns. -/
def outlasts (backend : Backend) (commit : Commit) : Bool :=
  match backend with
  | memory store | unwritable store => Store.lastSequence store ≤ commit.metadata.sequence
  | rows store =>
    (store.commits.map (·.sequence)).max?.all (· ≤ Column.ofNat commit.metadata.sequence)

/-- A backend holds what another one holds, and a commit besides. -/
structure Gains (backend : Backend) (commit : Commit) (after : Backend) : Prop where
  /-- Only what the commit consists of is added. -/
  contents : after = backend.adding commit
  /-- Nodes that the commit does not write are answered for as before. -/
  others : ∀ id query, id ∉ commit.snapshots.map Snapshot.id →
    Store.snapshotsOf after id query = Store.snapshotsOf backend id query
  /-- A query matches what it matched before and what the commit writes, and nothing else. -/
  matched : ∀ id query, query.limit = none →
    (after.found id query).Perm
      ((commit.snapshots.filter fun snapshot =>
        snapshot.id == id && backend.admits query commit snapshot).map backend.read ++
          backend.found id query)
  /-- What it matched before stays in order. -/
  order : ∀ id query, query.limit = none →
    (backend.found id query).Sublist (after.found id query)
  /-- A history gains the snapshots that the commit writes of its node if they can be read. -/
  histories : ∀ id history, Store.snapshotsOf backend id .all = .ok history →
    (∀ snapshot ∈ commit.snapshots, snapshot.id = id → backend.read snapshot = .ok snapshot) →
      ∃ grown, Store.snapshotsOf after id .all = .ok grown ∧ history.Sublist grown ∧
        grown.Perm ((commit.snapshots.filter fun snapshot => snapshot.id == id) ++ history)
  /-- The metadata of the commit are found. -/
  metadata : Store.metadata? after commit.id = .ok (some commit.metadata)
  /-- The metadata of other commits are found as before. -/
  otherMetadata : ∀ id : CommitId, id.Fits → id ≠ commit.id →
    Store.metadata? after id = Store.metadata? backend id
  /-- The highest id is the greater of the one before and that of the commit. -/
  head : Store.head? after =
    if backend.outranks commit then some commit.id else Store.head? backend
  /-- The highest sequence is the greater of the one before and that of the commit. -/
  lastSequence : Store.lastSequence after =
    if backend.outlasts commit then commit.metadata.sequence else Store.lastSequence backend
  /-- The snapshots of the commit are counted besides the others. -/
  snapshotCount : Store.snapshotCount after =
    Store.snapshotCount backend + commit.snapshots.length

/-- How a commit is stored. -/
inductive Stored (commit : Commit) : Backend → Backend → Prop
  /-- In memory, under a new id. -/
  | memory {store : MemoryStore} (fresh : commit.id ∉ store.commits.keys) :
      Stored commit (memory store) (memory (store.adding commit))
  /-- In rows that are sound and stay so, under a new id. -/
  | rows {store : RowStore} (sound : store.Sound) (fresh : store.commitRow? commit.id = none)
      (grown : (store.adding commit).Sound) :
      Stored commit (rows store) (rows (store.adding commit))

variable {backend after : Backend} {commit : Commit}

theorem Sound.stored (sound : backend.Sound)
    (persisted : backend.persist commit = .ok after) : Stored commit backend after := by
  cases backend with
  | memory store =>
      rw [persist] at persisted
      cases written : store.persist commit with
      | error => rw [written] at persisted; cases persisted
      | ok next =>
          rw [written] at persisted
          obtain ⟨fresh, rfl⟩ := MemoryStore.of_persist written
          obtain rfl := Except.ok.inj persisted
          exact .memory fresh
  | rows store =>
      rw [persist] at persisted
      cases written : store.persist commit with
      | error => rw [written] at persisted; cases persisted
      | ok next =>
          rw [written] at persisted
          obtain ⟨fresh, rfl, grown⟩ := RowStore.Sound.of_persist sound written
          obtain rfl := Except.ok.inj persisted
          exact .rows sound fresh grown
  | unwritable store => cases persisted

namespace Stored

variable (stored : Stored commit backend after)

include stored

/-- Soundness lasts. -/
theorem sound : after.Sound := by
  cases stored with
  | memory => trivial
  | rows _ _ grown => exact grown

theorem contents : after = backend.adding commit := by
  cases stored <;> rfl

/-- A query without a limit matches what it matched before and what the commit writes. -/
theorem matched (id : GlobalId) (query : Query) (unlimited : query.limit = none) :
    (after.found id query).Perm
      ((commit.snapshots.filter fun snapshot =>
        snapshot.id == id && backend.admits query commit snapshot).map backend.read ++
          backend.found id query) := by
  cases stored with
  | @memory store =>
      have read_eq : (Backend.memory store).read = .ok := rfl
      simp only [found, read_eq, admits, Query.select, Query.cut_of_unlimited unlimited,
        MemoryStore.history_adding, List.filter_append, List.map_append, List.filter_reverse,
        List.filter_filter, Bool.and_comm (query.admits _)]
      exact ((List.reverse_perm _).map _).append_right _
  | @rows store sound fresh =>
      have read_eq : (Backend.rows store).read =
          RowStore.readRow ∘ SnapshotRow.ofSnapshot commit.id := by
        funext snapshot
        rw [Function.comp_apply, RowStore.readRow, SnapshotRow.ofSnapshot, read]
      simp only [found, read_eq, admits, RowStore.matching_eq, Query.cut_of_unlimited unlimited]
      rw [RowStore.selected_adding sound fresh, ← List.map_map, ← List.map_append]
      refine List.Perm.map _ ((List.mergeSort_perm _ _).trans (List.perm_append_comm.trans ?_))
      exact ((List.mergeSort_perm _ _).symm).append_left _

/-- What a query without a limit matched before stays in order. -/
theorem order (id : GlobalId) (query : Query) (unlimited : query.limit = none) :
    (backend.found id query).Sublist (after.found id query) := by
  cases stored with
  | memory =>
      simp only [found, Query.select, Query.cut_of_unlimited unlimited,
        MemoryStore.history_adding, List.filter_append]
      exact (List.sublist_append_right ..).map _
  | rows sound fresh grown =>
      have distinct := grown.versions_nodup id query
      simp only [found, RowStore.matching_eq, Query.cut_of_unlimited unlimited]
      rw [RowStore.selected_adding sound fresh] at distinct ⊢
      exact (RowStore.sublist_mergeSort_append distinct).map _

/-- Queries for nodes that the commit does not write match the same as before. -/
theorem found_eq {id : GlobalId} (untouched : id ∉ commit.snapshots.map Snapshot.id)
    (query : Query) : after.found id query = backend.found id query := by
  have none (more : Snapshot → Bool) :
      (commit.snapshots.filter fun snapshot => snapshot.id == id && more snapshot) = [] := by
    refine List.filter_eq_nil_iff.mpr fun snapshot member same => untouched ?_
    rw [Bool.and_eq_true, beq_iff_eq] at same
    exact same.1 ▸ List.mem_map_of_mem member
  cases stored with
  | memory =>
      have nothing : (commit.snapshots.filter fun snapshot => snapshot.id == id) = [] := by
        simpa using none fun _ => true
      rw [found, found, MemoryStore.history_adding, nothing, List.reverse_nil, List.nil_append]
  | rows sound fresh grown =>
      rw [found, found, RowStore.matching_eq, RowStore.matching_eq,
        RowStore.selected_adding sound fresh, none, List.map_nil, List.append_nil]

/-- A history gains what the commit writes of its node if that can be read. -/
theorem histories {id : GlobalId} {history : List Snapshot}
    (answered : Store.snapshotsOf backend id .all = .ok history)
    (legible : ∀ snapshot ∈ commit.snapshots, snapshot.id = id →
      backend.read snapshot = .ok snapshot) :
    ∃ grown, Store.snapshotsOf after id .all = .ok grown ∧ history.Sublist grown ∧
      grown.Perm ((commit.snapshots.filter fun snapshot => snapshot.id == id) ++ history) := by
  have matched := stored.matched id .all rfl
  have order := stored.order id .all rfl
  rw [snapshotsOf_eq, mapM_self_eq_ok_iff] at answered
  have unbounded (snapshot : Snapshot) : backend.admits .all commit snapshot = true := by
    cases backend <;> rfl
  have written : (commit.snapshots.filter fun snapshot => snapshot.id == id).map backend.read =
      (commit.snapshots.filter fun snapshot => snapshot.id == id).map .ok :=
    List.map_congr_left fun snapshot member => by
      obtain ⟨member, named⟩ := List.mem_filter.mp member
      exact legible snapshot member (beq_iff_eq.mp named)
  simp only [unbounded, Bool.and_true, written, answered, ← List.map_append] at matched order
  have values (snapshots : List Snapshot) :
      (snapshots.map (.ok : Snapshot → Except StoreError Snapshot)).filterMap Except.toOption =
        snapshots := by
    simp [List.filterMap_map, Function.comp_def, Except.toOption]
  have grown_perm := matched.filterMap Except.toOption
  have kept := order.filterMap Except.toOption
  rw [values] at grown_perm kept
  refine ⟨(after.found id .all).filterMap Except.toOption, ?_, kept, grown_perm⟩
  rw [snapshotsOf_eq, mapM_self_eq_ok_iff]
  refine eq_map_toOption fun answer member => ?_
  obtain ⟨snapshot, -, same⟩ := List.mem_map.mp (matched.subset member)
  exact ⟨snapshot, same.symm⟩

theorem gains (fits : commit.metadata.Fits) : Gains backend commit after where
  contents := stored.contents
  others id query untouched := by
    rw [snapshotsOf_eq, snapshotsOf_eq, stored.found_eq untouched]
  matched id query unlimited := stored.matched id query unlimited
  order id query unlimited := stored.order id query unlimited
  histories _ _ answered legible := stored.histories answered legible
  metadata := by
    cases stored with
    | memory => exact congrArg Except.ok (Table.find?_put_self _ _)
    | rows _ fresh => exact RowStore.metadata?_adding_self fits fresh
  otherMetadata id id_fits other := by
    cases stored with
    | memory => exact congrArg Except.ok (Table.find?_put_of_ne _ other)
    | rows => exact RowStore.metadata?_adding_of_ne fits id_fits other
  head := by
    cases stored with
    | memory => exact MemoryStore.head_adding _ _
    | rows => exact RowStore.head_adding fits _
  lastSequence := by
    cases stored with
    | @memory store fresh =>
        have outlasts_iff : (Backend.memory store).outlasts commit ↔
            Store.lastSequence store ≤ commit.metadata.sequence := decide_eq_true_iff
        refine (MemoryStore.lastSequence_adding fresh).trans ?_
        rw [max_def]
        exact if_congr outlasts_iff.symm rfl rfl
    | rows => exact RowStore.lastSequence_adding fits _
  snapshotCount := by
    cases stored with
    | memory =>
        change List.length (_ ++ _) = _
        rw [List.length_append, List.length_reverse, Nat.add_comm]
        rfl
    | rows =>
        change List.length (_ ++ _) = _
        rw [List.length_append, List.length_map]
        rfl

end Stored
end Backend
end AuditTrail
