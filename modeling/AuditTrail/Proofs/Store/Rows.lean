import AuditTrail.Proofs.Codec.Reading
import AuditTrail.Proofs.Except
import AuditTrail.Proofs.Store.Contract
import AuditTrail.Store.Rows

/-!
# The contract of the store in rows

The store in rows keeps the contract for commits whose numbers fit into the columns and whose
snapshots can be read back, as long as no two nodes share a key.  The rows of a node, greatest
version first, are then those of its history.
-/

namespace AuditTrail

theorem Column.ofNat_of_lt {n : Nat} (small : n < 2 ^ 63) : Column.ofNat n = n := by
  unfold ofNat
  exact Int.bmod_eq_of_le (by norm_num) (by norm_num; omega)

theorem Column.toNat_natCast {bits n : Nat} (small : n < 2 ^ bits) :
    Column.toNat bits n = n := by
  rw [toNat, Nat.pow_eq, ← Int.natCast_emod, Int.toNat_natCast, Nat.mod_eq_of_lt small]

theorem Column.toNat_ofNat {n : Nat} (small : n < 2 ^ 64) : toNat 64 (ofNat n) = n := by
  have small : n < Nat.pow 2 64 := small
  unfold toNat ofNat
  generalize Nat.pow 2 64 = words at small
  rw [Int.bmod_emod, ← Int.natCast_emod, Int.toNat_natCast, Nat.mod_eq_of_lt small]

/-- Numbers of 64 bits are told apart by their columns. -/
theorem Column.ofNat_inj {n m : Nat} (n_small : n < 2 ^ 64) (m_small : m < 2 ^ 64) :
    ofNat n = ofNat m ↔ n = m := by
  refine ⟨fun same => ?_, congrArg ofNat⟩
  rw [← toNat_ofNat n_small, same, toNat_ofNat m_small]

/-- The numbers of an id fit into the columns. -/
def CommitId.FitsColumns (id : CommitId) : Prop := id.major < 2 ^ 63 ∧ id.minor < 2 ^ 32

instance (id : CommitId) : Decidable id.FitsColumns := inferInstanceAs (Decidable (_ ∧ _))

theorem CommitId.FitsColumns.fits {id : CommitId} (columns : id.FitsColumns) : id.Fits :=
  ⟨columns.1.trans (by decide), columns.2⟩

/-- The row of a commit tells its id. -/
theorem CommitRow.isOf_ofMetadata_iff {metadata : CommitMetadata} {id : CommitId}
    (fits : metadata.id.Fits) (id_fits : id.Fits) :
    (ofMetadata metadata).isOf id ↔ metadata.id = id := by
  obtain ⟨major, minor⟩ := fits
  obtain ⟨id_major, id_minor⟩ := id_fits
  have id_eq : metadata.id = id ↔ metadata.id.major = id.major ∧ metadata.id.minor = id.minor := by
    rw [← CommitId.mk.injEq]
  rw [isOf, ofMetadata, Bool.and_eq_true, beq_iff_eq, beq_iff_eq, id_eq,
    Column.ofNat_inj major id_major, Column.ofNat_inj (by omega) (by omega)]

theorem Commit.isOf_id (commit : Commit) :
    (CommitRow.ofMetadata commit.metadata).isOf commit.id := by
  simp [CommitRow.isOf, CommitRow.ofMetadata, id]

theorem CommitRow.id_ofMetadata {metadata : CommitMetadata} (fits : metadata.id.Fits) :
    (ofMetadata metadata).id = metadata.id := by
  obtain ⟨major, minor⟩ := fits
  have narrow : metadata.id.minor < 2 ^ 63 := by omega
  simp only [id, ofMetadata, Column.toNat_ofNat major, Column.ofNat_of_lt narrow,
    Column.toNat_natCast minor]

namespace CommitRow

theorem isAbove_iff {row other : CommitRow} :
    row.isAbove other ↔
      other.major < row.major ∨ other.major = row.major ∧ other.minor < row.minor := by
  simp [isAbove]

/-- The highest of some rows is one of them, and none is above it. -/
theorem exists_highest (head : CommitRow) (rows : List CommitRow) :
    ∃ highest, rows.foldl
        (fun head row =>
          match head with
          | none => some row
          | some head => some (if row.isAbove head then row else head))
        (some head) = some highest ∧
      highest ∈ head :: rows ∧ ∀ row ∈ head :: rows, ¬ row.isAbove highest := by
  induction rows generalizing head with
  | nil => exact ⟨head, rfl, List.mem_singleton_self head, by simp [isAbove_iff]⟩
  | cons next rest induction =>
      rw [List.foldl_cons]
      by_cases above : next.isAbove head
      · obtain ⟨highest, found, member, top⟩ := induction next
        refine ⟨highest, by simpa only [if_pos above] using found, .tail head member, ?_⟩
        refine List.forall_mem_cons.mpr ⟨?_, top⟩
        have next_top := top next List.mem_cons_self
        simp only [isAbove_iff] at above next_top ⊢
        omega
      · obtain ⟨highest, found, member, top⟩ := induction head
        have head_top := top head List.mem_cons_self
        refine ⟨highest, by simpa only [if_neg above] using found, ?_, ?_⟩
        · rcases List.mem_cons.mp member with rfl | member
          · exact List.mem_cons_self
          · exact .tail head (.tail next member)
        · refine List.forall_mem_cons.mpr ⟨head_top, List.forall_mem_cons.mpr ⟨?_, fun row member =>
            top row (.tail head member)⟩⟩
          simp only [isAbove_iff] at above head_top ⊢
          omega

end CommitRow

/-- What a row says is read back as a snapshot. -/
structure SnapshotRow.Reads (row : SnapshotRow) (snapshot : Snapshot) : Prop where
  /-- The column has the version. -/
  version : row.version = snapshot.version
  /-- The payload is that of the snapshot. -/
  payload : Payload.decode "snapshot" Snapshot.decode? row.payload = .ok snapshot

theorem SnapshotRow.mapM_of_reads {rows : List SnapshotRow} {snapshots : List Snapshot}
    (reads : List.Forall₂ Reads rows snapshots) :
    rows.mapM (fun row => Payload.decode "snapshot" Snapshot.decode? row.payload) =
      .ok snapshots := by
  induction reads with
  | nil => rfl
  | cons head _ induction =>
      rw [List.mapM_cons, head.payload, induction]
      rfl

theorem SnapshotRow.versions_of_reads {rows : List SnapshotRow} {snapshots : List Snapshot}
    (reads : List.Forall₂ Reads rows snapshots) :
    rows.map (·.version) = snapshots.map fun snapshot => (snapshot.version : Int) := by
  induction reads with
  | nil => rfl
  | cons head _ induction => rw [List.map_cons, List.map_cons, head.version, induction]

namespace RowStore

/-- A commit whose numbers fit into the columns, and whose snapshots can be read back. -/
structure Fits (commit : Commit) : Prop where
  /-- The leading number fits. -/
  major : commit.id.major < 2 ^ 63
  /-- The trailing number fits. -/
  minor : commit.id.minor < 2 ^ 32
  /-- The sequence number fits. -/
  sequence : commit.metadata.sequence < 2 ^ 63
  /-- The versions fit. -/
  version : ∀ snapshot ∈ commit.snapshots, snapshot.version < 2 ^ 63
  /-- The payloads are read as they were written. -/
  readable : ∀ snapshot ∈ commit.snapshots,
    Payload.decode "snapshot" Snapshot.decode? (Payload.encode "snapshot" snapshot.encode) =
      .ok snapshot

variable {commit : Commit}

theorem Fits.reads (fits : Fits commit) {snapshot : Snapshot}
    (member : snapshot ∈ commit.snapshots) :
    (SnapshotRow.ofSnapshot commit.id snapshot).Reads snapshot where
  version := by
    rw [SnapshotRow.ofSnapshot, Column.ofNat_of_lt (fits.version snapshot member)]
  payload := by
    rw [SnapshotRow.ofSnapshot, fits.readable snapshot member]

theorem Fits.id (fits : Fits commit) : commit.id.FitsColumns := ⟨fits.major, fits.minor⟩

theorem Fits.ofNat_major (fits : Fits commit) :
    Column.ofNat commit.id.major = commit.id.major := Column.ofNat_of_lt fits.major

theorem Fits.ofNat_minor (fits : Fits commit) :
    Column.ofNat commit.id.minor = commit.id.minor := by
  have minor := fits.minor
  exact Column.ofNat_of_lt (by omega)

theorem Fits.major_eq (fits : Fits commit) :
    (CommitRow.ofMetadata commit.metadata).major = commit.id.major := by
  rw [← fits.ofNat_major, CommitRow.ofMetadata, Commit.id]

theorem Fits.minor_eq (fits : Fits commit) :
    (CommitRow.ofMetadata commit.metadata).minor = commit.id.minor := by
  rw [← fits.ofNat_minor, CommitRow.ofMetadata, Commit.id]

theorem Fits.sequence_eq (fits : Fits commit) :
    (CommitRow.ofMetadata commit.metadata).sequence = commit.metadata.sequence := by
  rw [← Column.ofNat_of_lt fits.sequence, CommitRow.ofMetadata]

theorem Fits.id_ofMetadata (fits : Fits commit) :
    (CommitRow.ofMetadata commit.metadata).id = commit.id :=
  CommitRow.id_ofMetadata fits.id.fits

/-- Rows of commits that fit tell ids apart. -/
theorem Fits.isOf_iff (fits : Fits commit) {id : CommitId} (id_fits : id.FitsColumns) :
    (CommitRow.ofMetadata commit.metadata).isOf id ↔ commit.id = id :=
  CommitRow.isOf_ofMetadata_iff fits.id.fits id_fits.fits

/-- Rows of commits that fit are in the order of the ids. -/
theorem Fits.isLE_of_not_isAbove (fits : Fits commit) {other : Commit} (other_fits : Fits other)
    (below : ¬ (CommitRow.ofMetadata commit.metadata).isAbove (.ofMetadata other.metadata)) :
    (compare commit.id other.id).isLE := by
  rw [CommitRow.isAbove_iff, fits.major_eq, fits.minor_eq, other_fits.major_eq,
    other_fits.minor_eq] at below
  rw [CommitId.isLE_iff]
  omega

/-- No row conflicts with one before it. -/
def Separate (rows : List SnapshotRow) : Prop :=
  rows.Pairwise fun older newer => ¬ newer.conflicts older

/-- The rows of the snapshots of a log, in the order of writing. -/
def snapshotRows (log : CommitLog) : List SnapshotRow :=
  log.reverse.flatMap fun commit => commit.snapshots.map (SnapshotRow.ofSnapshot commit.id)

/-- The store holds the rows of a log whose histories go upwards. -/
structure Holds (store : RowStore) (log : CommitLog) : Prop where
  /-- All commits fit. -/
  fits : ∀ commit ∈ log, Fits commit
  /-- The rows of the commits are those of the log. -/
  commits : store.commits = log.reverse.map fun commit => .ofMetadata commit.metadata
  /-- The rows of the snapshots are those of the log. -/
  snapshots : store.snapshots = snapshotRows log
  /-- Newer snapshots have greater versions. -/
  ascending : ∀ id, (log.history id).Pairwise fun newer older => older.version < newer.version

section Rows

variable (distinct : Function.Injective SnapshotRow.keyOf) {store : RowStore} {log : CommitLog}

theorem snapshotRows_cons (commit : Commit) (log : CommitLog) :
    snapshotRows (commit :: log) =
      snapshotRows log ++ commit.snapshots.map (SnapshotRow.ofSnapshot commit.id) := by
  simp [snapshotRows]

theorem length_snapshotRows (log : CommitLog) :
    (snapshotRows log).length = log.snapshots.length := by
  induction log with
  | nil => rfl
  | cons commit log induction =>
      rw [snapshotRows_cons, List.length_append, induction, CommitLog.snapshots,
        CommitLog.snapshots, List.flatMap_cons, List.length_append, List.length_map,
        List.length_reverse, Nat.add_comm]

theorem mem_snapshotRows_iff {row : SnapshotRow} :
    row ∈ snapshotRows log ↔
      ∃ commit ∈ log, ∃ snapshot ∈ commit.snapshots, .ofSnapshot commit.id snapshot = row := by
  simp [snapshotRows]

include distinct in
theorem filter_key_map (commit : CommitId) (snapshots : List Snapshot) (id : GlobalId) :
    (snapshots.map (SnapshotRow.ofSnapshot commit)).filter (·.key == SnapshotRow.keyOf id) =
      (snapshots.filter (·.id == id)).map (SnapshotRow.ofSnapshot commit) := by
  rw [List.filter_map]
  refine congrArg _ (List.filter_congr fun snapshot _ => ?_)
  rw [Bool.eq_iff_iff, Function.comp_apply, beq_iff_eq, beq_iff_eq]
  exact distinct.eq_iff

include distinct in
/-- The rows of a node, the last one first, are read back as its history. -/
theorem reads_history (fits : ∀ commit ∈ log, Fits commit) (id : GlobalId) :
    List.Forall₂ SnapshotRow.Reads
      ((snapshotRows log).filter (·.key == SnapshotRow.keyOf id)).reverse (log.history id) := by
  induction log with
  | nil => exact .nil
  | cons commit log induction =>
      obtain ⟨head_fits, rest_fits⟩ := List.forall_mem_cons.mp fits
      rw [snapshotRows_cons, List.filter_append, List.reverse_append, CommitLog.history_cons,
        filter_key_map distinct, ← List.map_reverse]
      refine List.rel_append ?_ (induction rest_fits)
      rw [List.forall₂_map_left_iff, List.forall₂_same]
      intro snapshot member
      exact head_fits.reads (List.mem_filter.mp (List.mem_reverse.mp member)).1

include distinct in
/-- Rows conflict if they have the same node and version. -/
theorem Fits.conflicts_iff {commit other : Commit} (fits : Fits commit) (other_fits : Fits other)
    {snapshot older : Snapshot} (member : snapshot ∈ commit.snapshots)
    (older_mem : older ∈ other.snapshots) :
    (SnapshotRow.ofSnapshot commit.id snapshot).conflicts (.ofSnapshot other.id older) ↔
      snapshot.id = older.id ∧ snapshot.version = older.version := by
  rw [SnapshotRow.conflicts, (fits.reads member).version, (other_fits.reads older_mem).version,
    Bool.and_eq_true, beq_iff_eq, beq_iff_eq, Nat.cast_inj]
  exact and_congr_left' distinct.eq_iff

/-- Every row belongs to the row of a commit. -/
theorem Holds.admits (holds : store.Holds log) {query : Query} (unbounded : query.bound = none)
    {row : SnapshotRow} (member : row ∈ store.snapshots) : store.admits query row := by
  rw [holds.snapshots, mem_snapshotRows_iff] at member
  obtain ⟨commit, commit_mem, snapshot, -, rfl⟩ := member
  rw [RowStore.admits, holds.commits, List.any_eq_true]
  refine ⟨.ofMetadata commit.metadata, ?_, ?_⟩
  · exact List.mem_map.mpr ⟨commit, List.mem_reverse.mpr commit_mem, rfl⟩
  · simp [unbounded, CommitRow.ofMetadata, SnapshotRow.ofSnapshot, Commit.id]

/-- Sorted rows go down in their versions. -/
theorem pairwise_mergeSort (rows : List SnapshotRow) :
    (rows.mergeSort fun a b => b.version ≤ a.version).Pairwise
      fun a b => b.version ≤ a.version := by
  have sorted : (rows.mergeSort fun a b => b.version ≤ a.version).Pairwise
      fun a b => decide (b.version ≤ a.version) := by
    refine List.pairwise_mergeSort (fun a b c ab bc => ?_) (fun a b => ?_) rows
    · simp only [decide_eq_true_eq] at ab bc ⊢
      exact bc.trans ab
    · simpa using le_total b.version a.version
  exact sorted.imp of_decide_eq_true

/-- Rows of distinct versions that go down in them are determined by which ones occur. -/
theorem eq_of_descending {rows others : List SnapshotRow}
    (distinct : (others.map (·.version)).Nodup) (perm : rows.Perm others)
    (sorted : rows.Pairwise fun a b => b.version ≤ a.version)
    (others_sorted : others.Pairwise fun a b => b.version ≤ a.version) : rows = others := by
  refine List.Perm.eq_of_pairwise (fun a b a_mem b_mem ab ba => ?_) sorted others_sorted perm
  exact List.inj_on_of_nodup_map distinct (perm.subset a_mem) b_mem (le_antisymm ba ab)

/-- Sorting rows of rising versions by version puts the last one first. -/
theorem mergeSort_eq_reverse {rows : List SnapshotRow}
    (descending : rows.reverse.Pairwise fun newer older => older.version < newer.version) :
    (rows.mergeSort fun a b => b.version ≤ a.version) = rows.reverse :=
  eq_of_descending (List.pairwise_map.mpr (descending.imp ne_of_gt))
    ((List.mergeSort_perm rows _).trans rows.reverse_perm.symm) (pairwise_mergeSort rows)
    (descending.imp le_of_lt)

include distinct in
/-- The rows that a query without a bound matches are those of the node, the last one first. -/
theorem Holds.matching_eq (holds : store.Holds log) (id : GlobalId) {query : Query}
    (unbounded : query.bound = none) :
    store.matching id query =
      query.cut ((snapshotRows log).filter (·.key == SnapshotRow.keyOf id)).reverse := by
  have keyed : (store.snapshots.filter fun row =>
      row.key == SnapshotRow.keyOf id && store.admits query row) =
        (snapshotRows log).filter (·.key == SnapshotRow.keyOf id) := by
    rw [holds.snapshots]
    apply List.filter_congr
    intro row member
    rw [← holds.snapshots] at member
    rw [holds.admits unbounded member, Bool.and_true]
  have reads := reads_history distinct holds.fits id
  rw [matching, keyed]
  generalize (snapshotRows log).filter (·.key == SnapshotRow.keyOf id) = rows at reads ⊢
  have below : (rows.reverse.map (·.version)).Pairwise fun newer older => older < newer := by
    rw [SnapshotRow.versions_of_reads reads, List.pairwise_map]
    exact (holds.ascending id).imp fun below => Int.ofNat_lt.mpr below
  exact congrArg query.cut (mergeSort_eq_reverse (List.pairwise_map.mp below))

include distinct in
theorem Holds.snapshotsOf_eq (holds : store.Holds log) (id : GlobalId) {query : Query}
    (unbounded : query.bound = none) :
    Store.snapshotsOf store id query = .ok (query.select (log.history id)) := by
  have reads := reads_history distinct holds.fits id
  have cut_reads : List.Forall₂ SnapshotRow.Reads
      (query.cut ((snapshotRows log).filter (·.key == SnapshotRow.keyOf id)).reverse)
      (query.cut (log.history id)) := by
    unfold Query.cut
    split
    next => exact reads
    next => exact List.forall₂_take _ reads
  have admitted : (log.history id).filter query.admits = log.history id :=
    List.filter_eq_self.mpr fun _ _ => by simp [Query.admits, unbounded]
  change (store.matching id query).mapM _ = _
  rw [holds.matching_eq distinct id unbounded, SnapshotRow.mapM_of_reads cut_reads, Query.select,
    admitted]

/-- Rows are appended if they conflict with none, neither with a stored one nor among themselves. -/
theorem append_eq_ok_iff {stored rows final : List SnapshotRow} :
    append stored rows = .ok final ↔
      (∀ row ∈ rows, ∀ other ∈ stored, ¬ row.conflicts other) ∧ Separate rows ∧
        final = stored ++ rows := by
  induction rows generalizing stored with
  | nil =>
      rw [append, List.append_nil, Except.ok.injEq, eq_comm]
      simp [Separate]
  | cons row rest induction =>
      rw [append]
      split
      next conflict =>
        obtain ⟨other, stored, conflicts⟩ := List.any_eq_true.mp conflict
        simp only [reduceCtorEq, false_iff, not_and]
        exact fun apart => absurd conflicts (apart row List.mem_cons_self other stored)
      next free =>
        have free : ∀ other ∈ stored, ¬ row.conflicts other := by simpa using free
        rw [induction, List.append_assoc, List.singleton_append, List.forall_mem_cons,
          and_iff_right free, Separate, Separate, List.pairwise_cons]
        simp only [List.forall_mem_append, List.forall_mem_singleton, forall_and, and_assoc]

/-- A commit that is stored is new, and its rows conflict with none. -/
theorem of_persist {after : RowStore} {commit : Commit}
    (persisted : store.persist commit = .ok after) :
    store.commitRow? commit.id = none ∧
      (∀ row ∈ commit.snapshots.map (SnapshotRow.ofSnapshot commit.id),
        ∀ other ∈ store.snapshots, ¬ row.conflicts other) ∧
      Separate (commit.snapshots.map (SnapshotRow.ofSnapshot commit.id)) ∧
      after = ⟨store.commits ++ [.ofMetadata commit.metadata],
        store.snapshots ++ commit.snapshots.map (SnapshotRow.ofSnapshot commit.id)⟩ := by
  unfold persist at persisted
  split_ifs at persisted with taken
  obtain ⟨rows, appended, stored⟩ := bind_eq_ok_iff.mp persisted
  obtain ⟨apart, separate, rfl⟩ := append_eq_ok_iff.mp appended
  exact ⟨by simpa using taken, apart, separate, (Except.ok.inj stored).symm⟩

/-- In a history that goes upwards, no version is above that of the newest snapshot. -/
theorem Holds.version_le (holds : store.Holds log) {id : GlobalId} {snapshot : Snapshot}
    (member : snapshot ∈ log.history id) : snapshot.version ≤ log.version id := by
  have ascending := holds.ascending id
  rw [CommitLog.version, CommitLog.latest?]
  cases history : log.history id with
  | nil => rw [history] at member; cases member
  | cons newest older =>
      rw [history] at member ascending
      rcases List.mem_cons.mp member with rfl | member
      · exact le_refl _
      · exact ((List.pairwise_cons.mp ascending).1 snapshot member).le

include distinct in
/-- The rows of a commit that continues the log conflict with none. -/
theorem Holds.append_snapshots (holds : store.Holds log) {commit : Commit}
    (continues : log.Continues commit) (fits : Fits commit) :
    append store.snapshots (commit.snapshots.map (SnapshotRow.ofSnapshot commit.id)) =
      .ok (snapshotRows (commit :: log)) := by
  rw [snapshotRows_cons, ← holds.snapshots]
  refine append_eq_ok_iff.mpr ⟨?_, List.pairwise_map.mpr ?_, rfl⟩
  · intro row member other other_mem conflict
    obtain ⟨snapshot, written, rfl⟩ := List.mem_map.mp member
    rw [holds.snapshots, mem_snapshotRows_iff] at other_mem
    obtain ⟨older, older_mem, before, before_written, rfl⟩ := other_mem
    have older_fits := holds.fits older older_mem
    obtain ⟨same_id, same_version⟩ :=
      (fits.conflicts_iff distinct older_fits written before_written).mp conflict
    have newer := continues.newer snapshot written
    have bounded := holds.version_le (CommitLog.mem_history older_mem before_written)
    rw [same_id, same_version] at newer
    omega
  · apply (List.pairwise_map.mp continues.distinct).imp_of_mem
    intro older newer older_mem newer_mem ids conflict
    exact ids ((fits.conflicts_iff distinct fits newer_mem older_mem).mp conflict).1.symm

/-- A commit that continues the log keeps histories going upwards. -/
theorem Holds.ascending_cons (holds : store.Holds log) {commit : Commit}
    (continues : log.Continues commit) (id : GlobalId) :
    (CommitLog.history (commit :: log) id).Pairwise
      fun newer older => older.version < newer.version := by
  by_cases touched : id ∈ commit.snapshots.map Snapshot.id
  · obtain ⟨snapshot, written, rfl⟩ := List.mem_map.mp touched
    rw [CommitLog.history_cons_of_mem continues.distinct written]
    refine List.pairwise_cons.mpr ⟨fun older member => ?_, holds.ascending snapshot.id⟩
    exact (holds.version_le member).trans_lt (continues.newer snapshot written)
  · rw [CommitLog.history_cons_of_notMem touched]
    exact holds.ascending id

include distinct in
theorem Holds.persist (holds : store.Holds log) {commit : Commit} (continues : log.Continues commit)
    (fits : Fits commit) (fresh : commit.id ∉ log.map Commit.id) :
    ∃ after, store.persist commit = .ok after ∧ after.Holds (commit :: log) := by
  have unknown : store.commitRow? commit.id = none := by
    rw [commitRow?, holds.commits, List.find?_eq_none]
    intro row member same
    obtain ⟨other, other_mem, rfl⟩ := List.mem_map.mp member
    have other_mem := List.mem_reverse.mp other_mem
    rw [← ((holds.fits other other_mem).isOf_iff fits.id).mp same] at fresh
    exact fresh (List.mem_map_of_mem other_mem)
  have appended := holds.append_snapshots distinct continues fits
  have fits_all : ∀ other ∈ commit :: log, Fits other :=
    List.forall_mem_cons.mpr ⟨fits, holds.fits⟩
  refine ⟨⟨store.commits ++ [.ofMetadata commit.metadata], snapshotRows (commit :: log)⟩,
    by rw [RowStore.persist, unknown, appended]; rfl, fits_all, ?_, rfl,
    holds.ascending_cons continues⟩
  simp [holds.commits]

theorem Holds.persist_taken (holds : store.Holds log) {commit : Commit}
    (taken : commit.id ∈ log.map Commit.id) :
    store.persist commit = .error (.duplicateCommit commit.id) := by
  obtain ⟨older, member, same⟩ := List.mem_map.mp taken
  have known : (store.commitRow? commit.id).isSome := by
    rw [commitRow?, List.find?_isSome, holds.commits]
    refine ⟨.ofMetadata older.metadata, List.mem_map_of_mem (List.mem_reverse.mpr member), ?_⟩
    rw [← same]
    exact older.isOf_id
  rw [RowStore.persist, if_pos known]

theorem Holds.mem_commits_iff (holds : store.Holds log) {row : CommitRow} :
    row ∈ store.commits ↔ ∃ commit ∈ log, .ofMetadata commit.metadata = row := by
  simp only [holds.commits, List.mem_map, List.mem_reverse]

/-- The highest id is that of a commit unless there is none. -/
theorem Holds.head_spec (holds : store.Holds log) :
    (Store.head? store = none ∧ log = []) ∨
      ∃ commit ∈ log, Store.head? store = some commit.id ∧
        ∀ other ∈ log, (compare other.id commit.id).isLE := by
  have head_eq : Store.head? store = store.headRow?.map CommitRow.id := rfl
  rw [head_eq, headRow?]
  cases rows : store.commits with
  | nil =>
      refine .inl ⟨rfl, ?_⟩
      simpa [holds.commits] using rows
  | cons first rest =>
      obtain ⟨highest, highest_eq, member, top⟩ := CommitRow.exists_highest first rest
      rw [← rows] at member top
      obtain ⟨commit, commit_mem, rfl⟩ := holds.mem_commits_iff.mp member
      have fits := holds.fits commit commit_mem
      refine .inr ⟨commit, commit_mem, ?_, fun other other_mem => ?_⟩
      · refine (congrArg (Option.map CommitRow.id) highest_eq).trans ?_
        rw [Option.map_some, fits.id_ofMetadata]
      · refine (holds.fits other other_mem).isLE_of_not_isAbove fits (top _ ?_)
        exact holds.mem_commits_iff.mpr ⟨other, other_mem, rfl⟩

theorem Holds.le_lastSequence (holds : store.Holds log) {commit : Commit} (member : commit ∈ log) :
    commit.metadata.sequence ≤ Column.toNat 64 store.lastSequence := by
  have column : (commit.metadata.sequence : Int) ∈ store.commits.map (·.sequence) := by
    rw [← (holds.fits commit member).sequence_eq]
    exact List.mem_map_of_mem (holds.mem_commits_iff.mpr ⟨commit, member, rfl⟩)
  obtain ⟨last, last_eq⟩ := Option.isSome_iff_exists.mp (List.isSome_max?_of_mem column)
  obtain ⟨last_mem, last_top⟩ := List.max?_eq_some_iff.mp last_eq
  obtain ⟨row, row_mem, rfl⟩ := List.mem_map.mp last_mem
  obtain ⟨newest, newest_mem, rfl⟩ := holds.mem_commits_iff.mp row_mem
  have fits := holds.fits newest newest_mem
  have small := fits.sequence
  have wide : newest.metadata.sequence < 2 ^ 64 := by omega
  have below := last_top _ column
  rw [fits.sequence_eq] at below last_eq
  rw [lastSequence, last_eq, Option.getD_some, Column.toNat_natCast wide]
  exact Int.ofNat_le.mp below

end Rows

/-- The store in rows keeps the contract, as long as commits fit and keys tell nodes apart. -/
def contract (distinct : Function.Injective SnapshotRow.keyOf) : Store.Contract RowStore where
  empty := empty
  Fits := Fits
  Holds := Holds
  holds_empty := ⟨fun _ member => (nomatch member), rfl, rfl, fun _ => .nil⟩
  snapshotsOf_eq holds id _ unbounded := holds.snapshotsOf_eq distinct id unbounded
  le_head holds commit member := by
    rcases holds.head_spec with ⟨-, rfl⟩ | ⟨highest, -, head_eq, top⟩
    · cases member
    · exact ⟨highest.id, head_eq, top commit member⟩
  head_mem holds head found := by
    rcases holds.head_spec with ⟨none, -⟩ | ⟨highest, highest_mem, head_eq, -⟩
    · rw [none] at found
      cases found
    · rw [head_eq, Option.some.injEq] at found
      rw [← found]
      exact List.mem_map_of_mem highest_mem
  le_lastSequence holds _ member := holds.le_lastSequence member
  snapshotCount_eq holds := by
    change List.length _ = _
    rw [holds.snapshots, length_snapshotRows]
  persist_fresh holds _ continues fits fresh := holds.persist distinct continues fits fresh
  persist_taken holds _ taken := holds.persist_taken taken

end RowStore
end AuditTrail
