import AuditTrail.Proofs.Store.Contract
import AuditTrail.Proofs.Table
import AuditTrail.Store.Memory

/-!
# The contract of the store in memory

The store in memory keeps the snapshots in the order of the log, and the metadata of the commits in
the order of their ids.
-/

namespace AuditTrail

namespace MemoryStore

/-- The store holds the snapshots and the metadata of a log. -/
structure Holds (store : MemoryStore) (log : CommitLog) : Prop where
  /-- The snapshots are those of the log. -/
  snapshots : store.snapshots = log.snapshots
  /-- The metadata are those of the log. -/
  commits : ∀ metadata, metadata ∈ store.commits.rows ↔ metadata ∈ log.map Commit.metadata

variable {store : MemoryStore} {log : CommitLog} {commit : Commit}

theorem Holds.mem_keys_iff (holds : store.Holds log) {id : CommitId} :
    id ∈ store.commits.keys ↔ id ∈ log.map Commit.id := by
  simp only [Table.keys, List.mem_map, holds.commits, exists_exists_and_eq_and]
  rfl

theorem Holds.history_eq (holds : store.Holds log) (id : GlobalId) :
    store.history id = log.history id := by
  rw [history, holds.snapshots, CommitLog.history]

theorem Holds.latestVersion_eq (holds : store.Holds log) (id : GlobalId) :
    store.latestVersion id = log.version id := by
  rw [latestVersion, holds.history_eq, CommitLog.version, CommitLog.latest?]

theorem Holds.metadata?_eq (holds : store.Holds log) (member : commit ∈ log) :
    Store.metadata? store commit.id = .ok (some commit.metadata) := by
  have stored := (holds.commits commit.metadata).mpr (List.mem_map_of_mem member)
  exact congrArg Except.ok (Table.find?_key stored)

/-- What is found live is stored. -/
theorem mem_of_live? {id : GlobalId} {query : Query} {snapshot : Snapshot}
    (live : Store.live? store id query = .ok (some snapshot)) :
    snapshot ∈ store.snapshots ∧ snapshot.id = id ∧ ¬ snapshot.isTerminal := by
  have found : (query.select (store.history id)).head?.filter
      (fun snapshot => !snapshot.isTerminal) = some snapshot := Except.ok.inj live
  obtain ⟨first, alive⟩ := Option.filter_eq_some_iff.mp found
  have selected : snapshot ∈ query.select (store.history id) := List.mem_of_mem_head? first
  have recorded : snapshot ∈ store.history id := Query.mem_of_select selected
  obtain ⟨stored, named⟩ := List.mem_filter.mp recorded
  exact ⟨stored, by simpa using named, by simpa using alive⟩

theorem isLE_getLast_of_increasing {keys : List CommitId}
    (increasing : keys.Pairwise fun a b => compare a b = .lt) {key : CommitId}
    (member : key ∈ keys) : ∃ last, keys.getLast? = some last ∧ (compare key last).isLE := by
  induction keys generalizing key with
  | nil => cases member
  | cons head rest induction =>
      obtain ⟨below, rest_increasing⟩ := List.pairwise_cons.mp increasing
      cases rest with
      | nil =>
          rw [List.mem_singleton] at member
          rw [member]
          exact ⟨head, rfl, Std.ReflCmp.isLE_rfl⟩
      | cons next rest =>
          rw [List.getLast?_cons_cons]
          rcases List.mem_cons.mp member with rfl | member
          · obtain ⟨last, last_eq, next_le⟩ := induction rest_increasing List.mem_cons_self
            refine ⟨last, last_eq, Std.TransCmp.isLE_trans ?_ next_le⟩
            exact Ordering.isLE_of_eq_lt (below next List.mem_cons_self)
          · exact induction rest_increasing member

theorem exists_head {id : CommitId} (stored : id ∈ store.commits.keys) :
    ∃ head, Store.head? store = some head ∧ (compare id head).isLE :=
  isLE_getLast_of_increasing (Table.keys_increasing _) stored

/-- The head is the greatest id that is stored. -/
theorem head?_eq_some_iff {head : CommitId} :
    Store.head? store = some head ↔
      head ∈ store.commits.keys ∧ ∀ id ∈ store.commits.keys, (compare id head).isLE := by
  constructor
  · intro found
    refine ⟨List.mem_of_getLast? found, fun id stored => ?_⟩
    obtain ⟨last, same, id_le⟩ := exists_head stored
    rwa [Option.some.inj (found.symm.trans same)]
  · rintro ⟨stored, greatest⟩
    obtain ⟨last, found, head_le⟩ := exists_head stored
    have last_le := greatest last (List.mem_of_getLast? found)
    rw [found, Std.LawfulEqCmp.eq_of_compare (Std.OrientedCmp.isLE_antisymm last_le head_le)]

theorem foldl_max_le_iff {numbers : List Nat} {start limit : Nat} :
    numbers.foldl max start ≤ limit ↔ start ≤ limit ∧ ∀ number ∈ numbers, number ≤ limit := by
  induction numbers generalizing start with
  | nil => simp
  | cons head rest induction =>
      rw [List.foldl_cons, induction, max_le_iff, List.forall_mem_cons, and_assoc]

theorem Holds.persist (holds : store.Holds log) (continues : log.Continues commit)
    (fresh : commit.id ∉ log.map Commit.id) :
    ∃ after, store.persist commit = .ok after ∧ after.Holds (commit :: log) := by
  have unknown : store.commits.contains commit.id = false := by
    rw [Table.contains_eq, Option.isSome_eq_false_iff, Option.isNone_iff_eq_none,
      Table.find?_eq_none_iff, holds.mem_keys_iff]
    exact fresh
  have none_stale : store.stale? commit.snapshots = none := by
    apply List.find?_eq_none.mpr
    intro snapshot member
    rw [holds.latestVersion_eq, decide_eq_true_eq, not_le]
    exact continues.newer snapshot member
  refine ⟨_, by rw [MemoryStore.persist, unknown, none_stale]; rfl, ?_, fun metadata => ?_⟩
  · rw [holds.snapshots]
    rfl
  · rw [Table.mem_put_iff, holds.commits, List.map_cons, List.mem_cons]
    refine or_congr_right ⟨fun stored => stored.1, fun stored => ⟨stored, fun same => fresh ?_⟩⟩
    obtain ⟨other, other_mem, rfl⟩ := List.mem_map.mp stored
    exact List.mem_map.mpr ⟨other, other_mem, same⟩

theorem Holds.persist_taken (holds : store.Holds log) (taken : commit.id ∈ log.map Commit.id) :
    store.persist commit = .error (.duplicateCommit commit.id) := by
  have known : store.commits.contains commit.id := by
    rw [Table.contains_eq, Table.isSome_find?_iff]
    exact holds.mem_keys_iff.mpr taken
  rw [MemoryStore.persist, if_pos known]

/-- The store in memory keeps the contract, whatever is committed. -/
def contract : Store.Contract MemoryStore where
  empty := empty
  Fits _ := True
  Holds := Holds
  holds_empty := ⟨rfl, by simp [empty, Table.empty]⟩
  snapshotsOf_eq holds id _ _ := by
    change Except.ok _ = _
    rw [holds.history_eq]
  le_head holds _ member := exists_head (holds.mem_keys_iff.mpr (List.mem_map_of_mem member))
  head_mem holds _ found := holds.mem_keys_iff.mp (List.mem_of_getLast? found)
  le_lastSequence holds commit member := by
    have stored := (holds.commits commit.metadata).mpr (List.mem_map_of_mem member)
    exact (foldl_max_le_iff.mp le_rfl).2 _ (List.mem_map.mpr ⟨_, stored, rfl⟩)
  snapshotCount_eq holds := by
    change List.length _ = _
    rw [holds.snapshots]
  persist_fresh holds _ continues _ fresh := holds.persist continues fresh
  persist_taken holds _ taken := holds.persist_taken taken

end MemoryStore
end AuditTrail
