import AuditTrail.Proofs.Shadow.Filling
import AuditTrail.Proofs.Store.Bounds
import AuditTrail.Proofs.Store.Keys
import AuditTrail.Proofs.Store.Memory

/-!
# Stores that agree

Two stores agree if they give the same answers to all queries whose numbers fit into columns.  What
is assembled or rebuilt from their answers is then the same as well.  The store in memory and the
store in rows agree if both hold the same log and its numbers fit.
-/

namespace AuditTrail

/-- The numbers of a bound fit into the columns. -/
def Bound.Fits : Bound → Prop
  | .commit id timestamp sequence _ => id.FitsColumns ∧ timestamp < 2 ^ 63 ∧ sequence < 2 ^ 63
  | .time timestamp => timestamp < 2 ^ 63

instance : DecidablePred Bound.Fits
  | .commit .. => inferInstanceAs (Decidable (_ ∧ _ ∧ _))
  | .time _ => inferInstanceAs (Decidable (_ < _))

/-- The numbers of a query fit into the columns. -/
def Query.Fits (query : Query) : Prop := ∀ bound ∈ query.bound, bound.Fits

instance (query : Query) : Decidable query.Fits :=
  inferInstanceAs (Decidable (∀ bound ∈ query.bound, bound.Fits))

/-- The numbers of a selector fit into the columns. -/
def VersionSelector.Fits : VersionSelector → Prop
  | .latest => True
  | .commit id => id.FitsColumns
  | .time timestamp => timestamp < 2 ^ 63

instance : DecidablePred VersionSelector.Fits
  | .latest => inferInstanceAs (Decidable True)
  | .commit id => inferInstanceAs (Decidable id.FitsColumns)
  | .time _ => inferInstanceAs (Decidable (_ < _))

theorem Query.fits_latest : Query.latest.Fits := fun _ none => nomatch none

theorem Query.fits_latestWithin {bound : Bound} (fits : bound.Fits) :
    (Query.latestWithin bound).Fits := by
  intro other same
  obtain rfl := Option.some.inj same
  exact fits

/-- Two stores answer alike. -/
structure Store.Agree {σ τ : Type} [Store σ] [Store τ] (store : σ) (other : τ) : Prop where
  /-- Queries find the same snapshots. -/
  snapshotsOf : ∀ id query, query.Fits →
    Store.snapshotsOf other id query = Store.snapshotsOf store id query
  /-- The same metadata are stored. -/
  metadata? : ∀ id, id.FitsColumns → Store.metadata? other id = Store.metadata? store id
  /-- The numbers of stored metadata fit into the columns. -/
  fitting : ∀ id metadata, Store.metadata? store id = .ok (some metadata) →
    metadata.timestamp < 2 ^ 63 ∧ metadata.sequence < 2 ^ 63
  /-- There are as many snapshots. -/
  snapshotCount : Store.snapshotCount other = Store.snapshotCount store

namespace Store.Agree

variable {σ τ : Type} [Store σ] [Store τ] {store : σ} {other : τ} (agree : Agree store other)

include agree

theorem first?_eq (id : GlobalId) {query : Query} (fits : query.Fits) :
    Store.first? other id query = Store.first? store id query := by
  rw [Store.first?, Store.first?, agree.snapshotsOf id query fits]

theorem latest?_eq (id : GlobalId) : Store.latest? other id = Store.latest? store id :=
  agree.first?_eq id Query.fits_latest

theorem live?_eq (id : GlobalId) {query : Query} (fits : query.Fits) :
    Store.live? other id query = Store.live? store id query := by
  rw [Store.live?, Store.live?, agree.first?_eq id fits]

theorem firstStored_eq (loaded : LatestSnapshots) (pending : List GlobalId) :
    Assembly.firstStored other loaded pending = Assembly.firstStored store loaded pending := by
  induction pending with
  | nil => rfl
  | cons id rest induction =>
      rw [Assembly.firstStored, Assembly.firstStored, agree.latest?_eq, induction]

theorem load_eq (room : Nat) (loaded : LatestSnapshots) (pending : List GlobalId) :
    Assembly.load other room loaded pending = Assembly.load store room loaded pending := by
  induction room generalizing loaded pending with
  | zero => rw [Assembly.load, Assembly.load, agree.firstStored_eq]
  | succ room induction =>
      rw [Assembly.load, Assembly.load, agree.firstStored_eq]
      simp only [induction]

theorem closure_eq (ids : List GlobalId) :
    Assembly.closure other ids = Assembly.closure store ids := by
  rw [Assembly.closure, Assembly.closure, agree.snapshotCount, agree.load_eq]

/-- The same recordings are assembled. -/
theorem recording_eq (types : Schema.TypeTable) (options : DiffOptions) (metadata : CommitMetadata)
    (current : Graph) :
    Commit.recording types options other metadata current =
      Commit.recording types options store metadata current := by
  rw [Commit.recording, Commit.recording, agree.closure_eq]

/-- The same ends of nodes are assembled. -/
theorem terminating_eq (metadata : CommitMetadata) (id : GlobalId) :
    Commit.terminating other metadata id = Commit.terminating store metadata id := by
  rw [Commit.terminating, Commit.terminating, agree.live?_eq id Query.fits_latest,
    agree.closure_eq]

/-- A point in history is placed at the same bound. -/
theorem query_eq (scheme : CommitIdScheme) {selector : VersionSelector} (fits : selector.Fits) :
    selector.query other scheme = selector.query store scheme := by
  cases selector with
  | latest | time => rfl
  | commit id => simp only [VersionSelector.query, agree.metadata? id fits]

/-- The query for a point in history fits. -/
theorem fits_query {scheme : CommitIdScheme} {selector : VersionSelector} (fits : selector.Fits)
    {query : Query} (placed : selector.query store scheme = .ok query) : query.Fits := by
  cases selector with
  | latest =>
      obtain rfl := Except.ok.inj placed
      exact Query.fits_latest
  | time timestamp =>
      obtain rfl := Except.ok.inj placed
      exact Query.fits_latestWithin fits
  | commit id =>
      simp only [VersionSelector.query] at placed
      split at placed
      next => cases placed
      next metadata stored =>
        obtain rfl := Except.ok.inj placed
        exact Query.fits_latestWithin ⟨fits, agree.fitting id metadata stored⟩
      next =>
        obtain rfl := Except.ok.inj placed
        exact Query.fits_latestWithin ⟨fits, by decide, by decide⟩
      next => cases placed

/-- The same shadows are rebuilt. -/
theorem shadow_eq (types : Schema.TypeTable) (scheme : CommitIdScheme) (id : GlobalId)
    {selector : VersionSelector} (fits : selector.Fits) (scope : ShadowScope) :
    Shadow.of types other scheme id selector scope =
      Shadow.of types store scheme id selector scope := by
  rw [Shadow.of, Shadow.of, agree.query_eq scheme fits]
  cases placed : selector.query store scheme with
  | error => rfl
  | ok query =>
      have same (id : GlobalId) := agree.live?_eq id (agree.fits_query fits placed)
      have rebuilt (snapshot : Snapshot) : Shadow.ofSnapshot types other query scope snapshot =
          Shadow.ofSnapshot types store query scope snapshot := by
        rw [Shadow.ofSnapshot, Shadow.ofSnapshot, Shadow.fill_related compatible_eq same, agree.snapshotCount]
      simp only [bind, Except.bind, same, rebuilt]

end Store.Agree

/-- A log whose commits are told apart by their ids and can be found by columns that have room for
their times. -/
structure CommitLog.Filed (log : CommitLog) : Prop where
  /-- No id occurs twice. -/
  distinct : (log.map Commit.id).Nodup
  /-- Snapshots name the commits that wrote them. -/
  stamped : ∀ commit ∈ log, ∀ snapshot ∈ commit.snapshots, snapshot.commit = commit.metadata
  /-- The times fit. -/
  timestamp : ∀ commit ∈ log, commit.metadata.timestamp < 2 ^ 63
  /-- The metadata are read as they were written. -/
  readable : ∀ commit ∈ log, Payload.decode "commit" CommitMetadata.decode?
    (Payload.encode "commit" commit.metadata.encode) = .ok commit.metadata

theorem CommitLog.Filed.nil : CommitLog.Filed [] where
  distinct := .nil
  stamped _ member := absurd member List.not_mem_nil
  timestamp _ member := absurd member List.not_mem_nil
  readable _ member := absurd member List.not_mem_nil

theorem CommitLog.Filed.eq_of_id_eq {log : CommitLog} (filed : log.Filed) {commit other : Commit}
    (member : commit ∈ log) (other_mem : other ∈ log) (same : commit.id = other.id) :
    commit = other :=
  List.inj_on_of_nodup_map filed.distinct member other_mem same

theorem Query.admits_iff {query : Query} {snapshot : Snapshot} :
    query.admits snapshot ↔ ∀ bound ∈ query.bound, bound.admits snapshot.commit := by
  rw [Query.admits]
  cases query.bound <;> simp

/-- Numbers that fit into the columns are all below `2 ^ 63`. -/
theorem Bound.Fits.comparable {bound : Bound} (bound_fits : bound.Fits) {metadata : CommitMetadata}
    (id : metadata.id.FitsColumns) (timestamp : metadata.timestamp < 2 ^ 63)
    (sequence : metadata.sequence < 2 ^ 63) : bound.Comparable metadata := by
  cases bound with
  | time limit => exact .of_lt timestamp bound_fits
  | commit id' limit limit' scheme =>
      obtain ⟨id_fits, limit_fits, sequence_fits⟩ := bound_fits
      cases scheme with
      | sequential => exact .of_lt id.1 id_fits.1
      | random =>
          exact .inr ⟨.of_lt timestamp limit_fits, fun _ => .of_lt sequence sequence_fits⟩

theorem Bound.Fits.fitsWords {bound : Bound} (bound_fits : bound.Fits) : bound.FitsWords := by
  have narrow {n : Nat} (small : n < 2 ^ 63) : n < 2 ^ 64 := small.trans (by decide)
  cases bound with
  | time => exact narrow bound_fits
  | commit =>
      exact ⟨bound_fits.1.fits, narrow bound_fits.2.1, narrow bound_fits.2.2⟩

/-- Columns are admitted as the numbers in them. -/
theorem Bound.admitsRow_ofMetadata {bound : Bound} (bound_fits : bound.Fits) {commit : Commit}
    (fits : RowStore.Fits commit) (timestamp : commit.metadata.timestamp < 2 ^ 63) :
    bound.admitsRow (.ofMetadata commit.metadata) = bound.admits commit.metadata := by
  have comparable := bound_fits.comparable fits.id timestamp fits.sequence
  have metadata_fits : commit.metadata.Fits :=
    ⟨fits.id.fits, timestamp.trans (by decide), fits.sequence.trans (by decide)⟩
  exact Bool.eq_iff_iff.mpr (comparable.admitsRow_iff bound_fits.fitsWords metadata_fits)

namespace RowStore

/-- The row of a snapshot, which names its commit. -/
def rowOf (snapshot : Snapshot) : SnapshotRow := .ofSnapshot snapshot.commit.id snapshot

variable {store : RowStore} {log : CommitLog}

theorem snapshotRows_eq_map (filed : log.Filed) :
    snapshotRows log = (log.snapshots.map rowOf).reverse := by
  have named : ∀ commit ∈ log,
      commit.snapshots.map (SnapshotRow.ofSnapshot commit.id) = commit.snapshots.map rowOf :=
    fun commit member => List.map_congr_left fun snapshot written => by
      rw [rowOf, filed.stamped commit member snapshot written, Commit.id]
  rw [snapshotRows, CommitLog.snapshots, List.map_flatMap, List.reverse_flatMap]
  refine List.flatMap_congr fun commit member => ?_
  rw [named commit (List.mem_reverse.mp member), Function.comp_apply, List.map_reverse,
    List.reverse_reverse]

/-- The row of a stored snapshot is read back as the snapshot. -/
theorem Holds.reads_rowOf (holds : store.Holds log) (filed : log.Filed) {snapshot : Snapshot}
    (member : snapshot ∈ log.snapshots) : (rowOf snapshot).Reads snapshot := by
  obtain ⟨commit, commit_mem, written⟩ := List.mem_flatMap.mp member
  have written := List.mem_reverse.mp written
  have reads := (holds.fits commit commit_mem).reads written
  rw [rowOf, filed.stamped commit commit_mem snapshot written]
  exact reads

theorem admits_iff {query : Query} {row : SnapshotRow} :
    store.admits query row ↔ ∃ commit ∈ store.commits,
      (commit.major == row.major && commit.minor == row.minor) = true ∧
        ∀ bound ∈ query.bound, bound.admitsRow commit := by
  rw [admits, List.any_eq_true]
  cases query.bound <;> simp

/-- The row of a snapshot is admitted if the commit of the snapshot is. -/
theorem Holds.admits_eq (holds : store.Holds log) (filed : log.Filed) {query : Query}
    (fits : query.Fits) {snapshot : Snapshot} (member : snapshot ∈ log.snapshots) :
    store.admits query (rowOf snapshot) = query.admits snapshot := by
  obtain ⟨commit, commit_mem, written⟩ := List.mem_flatMap.mp member
  have metadata := filed.stamped commit commit_mem snapshot (List.mem_reverse.mp written)
  have picks (other : Commit) (other_mem : other ∈ log) :
      ((CommitRow.ofMetadata other.metadata).major == (rowOf snapshot).major &&
        (CommitRow.ofMetadata other.metadata).minor == (rowOf snapshot).minor) = true ↔
        other = commit := by
    have same := (holds.fits other other_mem).isOf_iff (holds.fits commit commit_mem).id
    rw [CommitRow.isOf] at same
    simp only [rowOf, SnapshotRow.ofSnapshot, metadata]
    exact same.trans ⟨filed.eq_of_id_eq other_mem commit_mem, fun equal => by rw [equal]⟩
  have within (bound : Bound) (bounded : bound ∈ query.bound) :
      bound.admitsRow (.ofMetadata commit.metadata) = bound.admits commit.metadata :=
    Bound.admitsRow_ofMetadata (fits bound bounded) (holds.fits commit commit_mem)
      (filed.timestamp commit commit_mem)
  rw [Bool.eq_iff_iff, admits_iff, holds.commits, Query.admits_iff, metadata]
  constructor
  · rintro ⟨row, row_mem, same, admitted⟩ bound bounded
    obtain ⟨other, other_mem, rfl⟩ := List.mem_map.mp row_mem
    obtain rfl := (picks other (List.mem_reverse.mp other_mem)).mp same
    rw [← within bound bounded]
    exact admitted bound bounded
  · intro admitted
    refine ⟨.ofMetadata commit.metadata, ?_, (picks commit commit_mem).mpr rfl, ?_⟩
    · exact List.mem_map.mpr ⟨commit, List.mem_reverse.mpr commit_mem, rfl⟩
    · intro bound bounded
      rw [within bound bounded]
      exact admitted bound bounded

/-- The rows that a query matches are those of the snapshots that it selects from the history. -/
theorem Holds.matching_within (holds : store.Holds log) (filed : log.Filed) (id : GlobalId)
    {query : Query} (fits : query.Fits) :
    store.matching id query = (query.select (log.history id)).map rowOf := by
  have keyed : (store.snapshots.filter fun row =>
      row.key == SnapshotRow.keyOf id && store.admits query row) =
        (((log.history id).filter query.admits).map rowOf).reverse := by
    rw [holds.snapshots, snapshotRows_eq_map filed, List.filter_reverse, List.filter_map,
      CommitLog.history, List.filter_filter]
    refine congrArg (fun snapshots : List Snapshot => (snapshots.map rowOf).reverse)
      (List.filter_congr fun snapshot member => ?_)
    have key_eq : ((rowOf snapshot).key == SnapshotRow.keyOf id) = (snapshot.id == id) := by
      rw [Bool.eq_iff_iff, beq_iff_eq, beq_iff_eq]
      exact SnapshotRow.keyOf_injective.eq_iff
    rw [Function.comp_apply, key_eq, holds.admits_eq filed fits member, Bool.and_comm]
  have stored {snapshot : Snapshot} (member : snapshot ∈ (log.history id).filter query.admits) :
      snapshot ∈ log.snapshots := (List.mem_filter.mp (List.mem_filter.mp member).1).1
  have descending : ((((log.history id).filter query.admits).map rowOf).reverse.reverse).Pairwise
      fun newer older => older.version < newer.version := by
    rw [List.reverse_reverse, List.pairwise_map]
    refine ((holds.ascending id).filter _).imp_of_mem fun newer_mem older_mem below => ?_
    rw [(holds.reads_rowOf filed (stored newer_mem)).version,
      (holds.reads_rowOf filed (stored older_mem)).version]
    exact Int.ofNat_lt.mpr below
  rw [matching, keyed, mergeSort_eq_reverse descending, List.reverse_reverse, Query.select,
    Query.map_cut]

/-- A query within a bound is answered from the log. -/
theorem Holds.snapshotsOf_within (holds : store.Holds log) (filed : log.Filed) (id : GlobalId)
    {query : Query} (fits : query.Fits) :
    Store.snapshotsOf store id query = .ok (query.select (log.history id)) := by
  have reads : List.Forall₂ SnapshotRow.Reads
      ((query.select (log.history id)).map rowOf) (query.select (log.history id)) := by
    rw [List.forall₂_map_left_iff, List.forall₂_same]
    intro snapshot selected
    exact holds.reads_rowOf filed (List.mem_filter.mp (Query.mem_of_select selected)).1
  change (store.matching id query).mapM _ = _
  rw [holds.matching_within filed id fits, SnapshotRow.mapM_of_reads reads]

/-- Metadata are answered from the log. -/
theorem Holds.metadata?_eq (holds : store.Holds log) (filed : log.Filed) {id : CommitId}
    (fits : id.FitsColumns) :
    store.metadata? id = .ok ((log.find? fun commit => commit.id == id).map Commit.metadata) := by
  cases found : log.find? fun commit => commit.id == id with
  | none =>
      have absent : store.commitRow? id = none := by
        rw [commitRow?, List.find?_eq_none]
        intro row row_mem same
        obtain ⟨commit, member, rfl⟩ := holds.mem_commits_iff.mp row_mem
        have named := ((holds.fits commit member).isOf_iff fits).mp same
        exact List.find?_eq_none.mp found commit member (beq_iff_eq.mpr named)
      rw [metadata?, absent]
      rfl
  | some commit =>
      have member := List.mem_of_find?_eq_some found
      have named : commit.id = id := by simpa using List.find?_some found
      have present : (store.commitRow? id).isSome := by
        rw [commitRow?, List.find?_isSome]
        exact ⟨_, holds.mem_commits_iff.mpr ⟨commit, member, rfl⟩,
          ((holds.fits commit member).isOf_iff fits).mpr named⟩
      obtain ⟨row, row_eq⟩ := Option.isSome_iff_exists.mp present
      have searched : store.commits.find? (fun row => row.isOf id) = some row := row_eq
      have picked := List.find?_some searched
      obtain ⟨other, other_mem, rfl⟩ :=
        holds.mem_commits_iff.mp (List.mem_of_find?_eq_some searched)
      have same_id := ((holds.fits other other_mem).isOf_iff fits).mp picked
      obtain rfl := filed.eq_of_id_eq other_mem member (same_id.trans named.symm)
      rw [metadata?, row_eq]
      simp only [CommitRow.ofMetadata, filed.readable other other_mem]
      rfl

end RowStore

/-- The store in memory, too, answers metadata from the log. -/
theorem MemoryStore.Holds.metadata?_find {store : MemoryStore} {log : CommitLog}
    (holds : store.Holds log) (id : CommitId) :
    Store.metadata? store id =
      .ok ((log.find? fun commit => commit.id == id).map Commit.metadata) := by
  cases found : log.find? fun commit => commit.id == id with
  | none =>
      have absent : id ∉ log.map Commit.id := by
        rintro member
        obtain ⟨commit, commit_mem, rfl⟩ := List.mem_map.mp member
        exact List.find?_eq_none.mp found commit commit_mem (beq_self_eq_true _)
      rw [← holds.mem_keys_iff, ← Table.find?_eq_none_iff] at absent
      exact congrArg Except.ok absent
  | some commit =>
      have named : commit.id = id := by simpa using List.find?_some found
      rw [← named]
      exact holds.metadata?_eq (List.mem_of_find?_eq_some found)

/-- The store in memory and the store in rows agree if they hold the same log and its numbers
fit. -/
theorem agree_of_holds {memory : MemoryStore} {rows : RowStore} {log : CommitLog}
    (holds : memory.Holds log) (rows_holds : rows.Holds log) (filed : log.Filed) :
    Store.Agree memory rows where
  snapshotsOf id query fits := by
    rw [rows_holds.snapshotsOf_within filed id fits, ← holds.history_eq]
    rfl
  metadata? id fits := by
    rw [holds.metadata?_find]
    exact rows_holds.metadata?_eq filed fits
  fitting id metadata found := by
    rw [holds.metadata?_find, Except.ok.injEq] at found
    obtain ⟨commit, first, rfl⟩ := Option.map_eq_some_iff.mp found
    have member := List.mem_of_find?_eq_some first
    exact ⟨filed.timestamp commit member, (rows_holds.fits commit member).sequence⟩
  snapshotCount := by
    have count := MemoryStore.contract.snapshotCount_eq holds
    have rows_count := (RowStore.contract SnapshotRow.keyOf_injective).snapshotCount_eq rows_holds
    rw [count, rows_count]

end AuditTrail
