import AuditTrail.Proofs.Codec.Plain
import AuditTrail.Proofs.Except
import AuditTrail.Proofs.Store.Contract
import AuditTrail.Store.Backend

/-!
# Stores that look alike

The names that a commit changed are history only where a node was updated; on the first and on the
last snapshot of a life they depend on how much a diff reports.  Stores look alike if they differ in
nothing but these names.  No query and no check of a store tells them apart otherwise, and storing
commits that look alike keeps them so.
-/

namespace AuditTrail

open Codec

namespace Snapshot

/-- The snapshot with the changed names of an update only. -/
def bare (snapshot : Snapshot) : Snapshot :=
  { snapshot with changed := if snapshot.kind = .update then snapshot.changed else [] }

variable (snapshot : Snapshot)

@[simp] theorem bare_id : snapshot.bare.id = snapshot.id := rfl

@[simp] theorem bare_typeName : snapshot.bare.typeName = snapshot.typeName := rfl

@[simp] theorem bare_commit : snapshot.bare.commit = snapshot.commit := rfl

@[simp] theorem bare_kind : snapshot.bare.kind = snapshot.kind := rfl

@[simp] theorem bare_version : snapshot.bare.version = snapshot.version := rfl

@[simp] theorem bare_node : snapshot.bare.node = snapshot.node := rfl

@[simp] theorem bare_isTerminal : snapshot.bare.isTerminal = snapshot.isTerminal := rfl

end Snapshot

/-- The commit without its changes, and with the changed names of updates only. -/
def Commit.bare (commit : Commit) : Commit :=
  { commit with diff := ⟨[]⟩, snapshots := commit.snapshots.map Snapshot.bare }

theorem Commit.metadata_of_bare {commit other : Commit} (alike : commit.bare = other.bare) :
    commit.metadata = other.metadata :=
  (congrArg metadata alike : commit.bare.metadata = other.bare.metadata)

theorem Commit.snapshots_of_bare {commit other : Commit} (alike : commit.bare = other.bare) :
    commit.snapshots.map Snapshot.bare = other.snapshots.map Snapshot.bare :=
  (congrArg snapshots alike : commit.bare.snapshots = other.bare.snapshots)

theorem Commit.isEmpty_of_bare {commit other : Commit} (alike : commit.bare = other.bare) :
    commit.isEmpty = other.isEmpty := by
  have count := congrArg List.length (snapshots_of_bare alike)
  rw [List.length_map, List.length_map] at count
  rw [Bool.eq_iff_iff, isEmpty, isEmpty, List.isEmpty_iff_length_eq_zero,
    List.isEmpty_iff_length_eq_zero, count]

/-- Stores that look alike: they differ in changed names of snapshots that are no updates. -/
structure Store.Likeness (σ : Type) [Store σ] where
  /-- Two stores look alike. -/
  Like : σ → σ → Prop
  /-- Every store looks like itself. -/
  refl : ∀ store, Like store store
  /-- Queries fail with the same error, or find snapshots that look alike. -/
  snapshotsOf : ∀ {store other}, Like store other → ∀ id query,
    (Store.snapshotsOf store id query).map (List.map Snapshot.bare) =
      (Store.snapshotsOf other id query).map (List.map Snapshot.bare)
  /-- The highest ids are the same. -/
  head? : ∀ {store other}, Like store other → Store.head? store = Store.head? other
  /-- The highest sequences are the same. -/
  lastSequence : ∀ {store other}, Like store other →
    Store.lastSequence store = Store.lastSequence other
  /-- The metadata of commits are the same. -/
  metadata? : ∀ {store other}, Like store other → ∀ id,
    Store.metadata? store id = Store.metadata? other id
  /-- There are as many snapshots. -/
  snapshotCount : ∀ {store other}, Like store other →
    Store.snapshotCount store = Store.snapshotCount other
  /-- Commits that look alike are refused with the same error, or stored. -/
  persist : ∀ {store other}, Like store other → ∀ {commit counterpart : Commit},
    commit.bare = counterpart.bare →
      (∃ error, Store.persist store commit = .error error ∧
          Store.persist other counterpart = .error error) ∨
        ∃ after after', Store.persist store commit = .ok after ∧
          Store.persist other counterpart = .ok after' ∧ Like after after'

theorem Query.map_select (query : Query) (history : List Snapshot) :
    (query.select history).map Snapshot.bare = query.select (history.map Snapshot.bare) := by
  have admitted : query.admits ∘ Snapshot.bare = query.admits := by
    funext snapshot
    rw [Function.comp_apply, admits, admits, Snapshot.bare_commit]
  rw [select, select, List.filter_map, admitted, map_cut]

namespace MemoryStore

/-- The stores have the same commits, and snapshots that look alike. -/
structure Like (store other : MemoryStore) : Prop where
  /-- The commits are the same. -/
  commits : store.commits = other.commits
  /-- The snapshots look alike. -/
  snapshots : store.snapshots.map Snapshot.bare = other.snapshots.map Snapshot.bare

variable {store other : MemoryStore}

theorem map_history (store : MemoryStore) (id : GlobalId) :
    (store.history id).map Snapshot.bare =
      (store.snapshots.map Snapshot.bare).filter fun snapshot => snapshot.id == id := by
  rw [List.filter_map]
  rfl

theorem Like.history (like : Like store other) (id : GlobalId) :
    (store.history id).map Snapshot.bare = (other.history id).map Snapshot.bare := by
  rw [map_history, map_history, like.snapshots]

theorem latestVersion_eq (store : MemoryStore) (id : GlobalId) :
    store.latestVersion id =
      ((((store.history id).map Snapshot.bare).head?.map Snapshot.version)).getD 0 := by
  rw [latestVersion, List.head?_map, Option.map_map]
  rfl

theorem Like.latestVersion (like : Like store other) :
    store.latestVersion = other.latestVersion := by
  funext id
  rw [latestVersion_eq, latestVersion_eq, like.history]

/-- The first snapshots that are not newer look alike. -/
theorem Like.stale? (like : Like store other) {snapshots counterparts : List Snapshot}
    (alike : snapshots.map Snapshot.bare = counterparts.map Snapshot.bare) :
    (store.stale? snapshots).map Snapshot.bare = (other.stale? counterparts).map Snapshot.bare := by
  have searched (snapshots : List Snapshot) : (store.stale? snapshots).map Snapshot.bare =
      (snapshots.map Snapshot.bare).find? fun snapshot =>
        snapshot.version ≤ store.latestVersion snapshot.id := by
    rw [List.find?_map]
    rfl
  have same (snapshots : List Snapshot) : store.stale? snapshots = other.stale? snapshots := by
    rw [MemoryStore.stale?, MemoryStore.stale?, like.latestVersion]
  rw [← same, searched, searched, alike]

theorem Like.persist (like : Like store other) {commit counterpart : Commit}
    (alike : commit.bare = counterpart.bare) :
    (∃ error, store.persist commit = .error error ∧ other.persist counterpart = .error error) ∨
      ∃ after after', store.persist commit = .ok after ∧ other.persist counterpart = .ok after' ∧
        Like after after' := by
  have metadata := Commit.metadata_of_bare alike
  have snapshots := Commit.snapshots_of_bare alike
  have id_eq : commit.id = counterpart.id := congrArg CommitMetadata.id metadata
  have stale := like.stale? snapshots
  rw [MemoryStore.persist, MemoryStore.persist, id_eq, like.commits]
  split
  · exact .inl ⟨_, rfl, rfl⟩
  · cases first : store.stale? commit.snapshots with
    | some snapshot =>
        rw [first, Option.map_some, eq_comm, Option.map_eq_some_iff] at stale
        obtain ⟨snapshot', first', same⟩ := stale
        have ids : snapshot'.bare.id = snapshot.bare.id := by rw [same]
        have versions : snapshot'.bare.version = snapshot.bare.version := by rw [same]
        rw [Snapshot.bare_id, Snapshot.bare_id] at ids
        rw [Snapshot.bare_version, Snapshot.bare_version] at versions
        refine .inl ⟨_, rfl, ?_⟩
        simp only [first', ids, versions, like.latestVersion]
    | none =>
        rw [first, Option.map_none, eq_comm, Option.map_eq_none_iff] at stale
        rw [stale]
        refine .inr ⟨_, _, rfl, rfl, ?_, ?_⟩
        · simp only [metadata]
        · simp only [List.map_append, List.map_reverse, snapshots, like.snapshots]

/-- Stores in memory that look alike. -/
def likeness : Store.Likeness MemoryStore where
  Like := Like
  refl _ := ⟨rfl, rfl⟩
  snapshotsOf like id query := by
    refine congrArg Except.ok ?_
    rw [Query.map_select, Query.map_select, like.history]
  head? like := congrArg (fun commits : Table CommitMetadata.id => commits.keys.getLast?)
    like.commits
  lastSequence like := congrArg
    (fun commits : Table CommitMetadata.id => (commits.rows.map (·.sequence)).foldl max 0)
    like.commits
  metadata? like id := congrArg
    (fun commits : Table CommitMetadata.id => Except.ok (commits.find? id)) like.commits
  snapshotCount {store other} like := by
    have count := congrArg List.length like.snapshots
    rw [List.length_map, List.length_map] at count
    exact count
  persist like _ _ alike := like.persist alike

end MemoryStore

namespace SnapshotRow

/-- What a row shows: its columns, and the snapshot that its payload is read as. -/
def shown (row : SnapshotRow) : SnapshotRow × Except StoreError Snapshot :=
  ({ row with payload := "" },
    (Payload.decode "snapshot" Snapshot.decode? row.payload).map Snapshot.bare)

/-- What is read of a written snapshot looks like what is read of the snapshot without the names. -/
theorem decode_bare (snapshot : Snapshot) :
    (Payload.decode "snapshot" Snapshot.decode?
        (Payload.encode "snapshot" snapshot.bare.encode)).map Snapshot.bare =
      (Payload.decode "snapshot" Snapshot.decode?
        (Payload.encode "snapshot" snapshot.encode)).map Snapshot.bare := by
  by_cases update : snapshot.kind = .update
  · rw [show snapshot.bare = snapshot by rw [Snapshot.bare, if_pos update]]
  · have renamed : Snapshot.decode? (nestingLimit - 1) snapshot.bare.encode =
        (Snapshot.decode? (nestingLimit - 1) snapshot.encode).map
          fun found => { found with changed := snapshot.bare.changed } :=
      Snapshot.decode?_changed 124 snapshot snapshot.bare.changed
    rw [Payload.decode_encode_eq (by decide) _ snapshot.bare.plain_encode,
      Payload.decode_encode_eq (by decide) _ snapshot.plain_encode, renamed]
    cases read : Snapshot.decode? (nestingLimit - 1) snapshot.encode with
    | none => rfl
    | some found =>
        have kind : found.kind = snapshot.kind := Snapshot.kind_of_decode? read
        simp [Except.map, Snapshot.bare, kind, update]

theorem shown_ofSnapshot_bare (commit : CommitId) (snapshot : Snapshot) :
    shown (ofSnapshot commit snapshot.bare) = shown (ofSnapshot commit snapshot) := by
  simp only [shown, ofSnapshot, decode_bare, Snapshot.bare_id, Snapshot.bare_version]

end SnapshotRow

namespace RowStore

open SnapshotRow

/-- The stores have the same commit rows, and snapshot rows that show the same. -/
structure Like (store other : RowStore) : Prop where
  /-- The commit rows are the same. -/
  commits : store.commits = other.commits
  /-- The snapshot rows show the same. -/
  snapshots : store.snapshots.map shown = other.snapshots.map shown

variable {store other : RowStore}

/-- Which rows match, and in which order, depends on what they show. -/
theorem map_matching (store : RowStore) (id : GlobalId) (query : Query) :
    (store.matching id query).map shown =
      query.cut (((store.snapshots.map shown).filter fun row =>
        row.1.key == keyOf id && store.admits query row.1).mergeSort fun a b =>
          b.1.version ≤ a.1.version) := by
  have sorted (rows : List SnapshotRow) :
      (rows.mergeSort fun a b => b.version ≤ a.version).map shown =
        (rows.map shown).mergeSort fun a b => b.1.version ≤ a.1.version :=
    List.map_mergeSort fun _ _ _ _ => rfl
  rw [matching, Query.map_cut, sorted, List.filter_map]
  rfl

theorem Like.matching (like : Like store other) (id : GlobalId) (query : Query) :
    (store.matching id query).map shown = (other.matching id query).map shown := by
  have admitted : store.admits query = other.admits query := by
    funext row
    rw [RowStore.admits, RowStore.admits, like.commits]
  rw [map_matching, map_matching, like.snapshots, admitted]

/-- Rows that show the same are read as snapshots that look alike, or fail with the same error. -/
theorem mapM_of_shown {rows others : List SnapshotRow}
    (same : rows.map shown = others.map shown) :
    (rows.mapM fun row => Payload.decode "snapshot" Snapshot.decode? row.payload).map
        (List.map Snapshot.bare) =
      (others.mapM fun row => Payload.decode "snapshot" Snapshot.decode? row.payload).map
        (List.map Snapshot.bare) := by
  have read (rows : List SnapshotRow) :
      (rows.mapM fun row => Payload.decode "snapshot" Snapshot.decode? row.payload).map
          (List.map Snapshot.bare) = (rows.map shown).mapM Prod.snd := by
    induction rows with
    | nil => rfl
    | cons row rows induction =>
        rw [List.map_cons, List.mapM_cons, List.mapM_cons, ← induction]
        cases first : Payload.decode "snapshot" Snapshot.decode? row.payload with
        | error error => simp [shown, first, Except.map, bind, Except.bind]
        | ok snapshot =>
            cases rows.mapM fun row => Payload.decode "snapshot" Snapshot.decode? row.payload <;>
              simp [shown, first, Except.map, bind, Except.bind, pure, Except.pure]
  rw [read, read, same]

/-- Appending rows that show the same fails or goes on showing the same. -/
theorem append_of_shown {stored others rows counterparts : List SnapshotRow}
    (same : stored.map shown = others.map shown)
    (alike : rows.map shown = counterparts.map shown) :
    (append stored rows).map (List.map shown) =
      (append others counterparts).map (List.map shown) := by
  induction rows generalizing stored others counterparts with
  | nil =>
      rw [List.map_nil, eq_comm, List.map_eq_nil_iff] at alike
      rw [alike, append, append, Except.map, Except.map, same]
  | cons row rows induction =>
      rw [List.map_cons, eq_comm, List.map_eq_cons_iff] at alike
      obtain ⟨counterpart, counterparts, rfl, first, alike⟩ := alike
      have conflict : stored.any row.conflicts = others.any counterpart.conflicts := by
        have seen (stored : List SnapshotRow) (row : SnapshotRow) :
            stored.any row.conflicts = (stored.map shown).any fun other =>
              row.shown.1.conflicts other.1 := by
          rw [List.any_map]
          rfl
        rw [seen, seen, same, first]
      rw [append, append, conflict]
      split
      next => rfl
      next =>
        refine induction ?_ alike.symm
        rw [List.map_append, List.map_append, same, List.map_singleton, List.map_singleton, first]

theorem Like.persist (like : Like store other) {commit counterpart : Commit}
    (alike : commit.bare = counterpart.bare) :
    (∃ error, store.persist commit = .error error ∧ other.persist counterpart = .error error) ∨
      ∃ after after', store.persist commit = .ok after ∧ other.persist counterpart = .ok after' ∧
        Like after after' := by
  have metadata := Commit.metadata_of_bare alike
  have id_eq : commit.id = counterpart.id := congrArg CommitMetadata.id metadata
  have rows (snapshots : List Snapshot) :
      (snapshots.map (ofSnapshot counterpart.id)).map shown =
        (snapshots.map Snapshot.bare).map (shown ∘ ofSnapshot counterpart.id) := by
    rw [List.map_map, List.map_map]
    exact List.map_congr_left fun snapshot _ => (shown_ofSnapshot_bare _ snapshot).symm
  have appended := append_of_shown like.snapshots
    (show (commit.snapshots.map (ofSnapshot counterpart.id)).map shown =
        (counterpart.snapshots.map (ofSnapshot counterpart.id)).map shown by
      rw [rows, rows, Commit.snapshots_of_bare alike])
  rw [RowStore.persist, RowStore.persist, commitRow?, commitRow?, id_eq, like.commits, metadata]
  split
  · exact .inl ⟨_, rfl, rfl⟩
  · rcases map_eq_map_iff.mp appended with ⟨error, failed, failed'⟩ |
      ⟨grown, grown', done, done', same⟩
    · rw [failed, failed']
      exact .inl ⟨error, rfl, rfl⟩
    · rw [done, done']
      exact .inr ⟨_, _, rfl, rfl, rfl, same⟩

/-- Stores in rows that look alike. -/
def likeness : Store.Likeness RowStore where
  Like := Like
  refl _ := ⟨rfl, rfl⟩
  snapshotsOf like id query := mapM_of_shown (like.matching id query)
  head? {store other} like := by
    change store.headRow?.map CommitRow.id = other.headRow?.map CommitRow.id
    rw [headRow?, headRow?, like.commits]
  lastSequence {store other} like := by
    change Column.toNat 64 store.lastSequence = Column.toNat 64 other.lastSequence
    rw [lastSequence, lastSequence, like.commits]
  metadata? {store other} like id := by
    change store.metadata? id = other.metadata? id
    rw [metadata?, metadata?, commitRow?, commitRow?, like.commits]
  snapshotCount {store other} like := by
    have count := congrArg List.length like.snapshots
    rw [List.length_map, List.length_map] at count
    exact count
  persist like _ _ alike := like.persist alike

end RowStore

namespace Backend

/-- Backends of one kind whose stores look alike. -/
def Like : Backend → Backend → Prop
  | memory store, memory other => store.Like other
  | rows store, rows other => store.Like other
  | unwritable store, unwritable other => store.Like other
  | _, _ => False

/-- Backends that look alike. -/
def likeness : Store.Likeness Backend where
  Like := Like
  refl
    | memory store => MemoryStore.likeness.refl store
    | rows store => RowStore.likeness.refl store
    | unwritable store => MemoryStore.likeness.refl store
  snapshotsOf {store other} like id query :=
    match store, other, like with
    | memory _, memory _, like => MemoryStore.likeness.snapshotsOf like id query
    | rows _, rows _, like => RowStore.likeness.snapshotsOf like id query
    | unwritable _, unwritable _, like => MemoryStore.likeness.snapshotsOf like id query
  head? {store other} like :=
    match store, other, like with
    | memory _, memory _, like => MemoryStore.likeness.head? like
    | rows _, rows _, like => RowStore.likeness.head? like
    | unwritable _, unwritable _, like => MemoryStore.likeness.head? like
  lastSequence {store other} like :=
    match store, other, like with
    | memory _, memory _, like => MemoryStore.likeness.lastSequence like
    | rows _, rows _, like => RowStore.likeness.lastSequence like
    | unwritable _, unwritable _, like => MemoryStore.likeness.lastSequence like
  metadata? {store other} like id :=
    match store, other, like with
    | memory _, memory _, like => MemoryStore.likeness.metadata? like id
    | rows _, rows _, like => RowStore.likeness.metadata? like id
    | unwritable _, unwritable _, like => MemoryStore.likeness.metadata? like id
  snapshotCount {store other} like :=
    match store, other, like with
    | memory _, memory _, like => MemoryStore.likeness.snapshotCount like
    | rows _, rows _, like => RowStore.likeness.snapshotCount like
    | unwritable _, unwritable _, like => MemoryStore.likeness.snapshotCount like
  persist {store other} like commit counterpart alike := by
    match store, other, like with
    | memory _, memory _, like =>
        rcases MemoryStore.Like.persist like alike with
          ⟨error, failed, failed'⟩ | ⟨after, after', done, done', like⟩
        · exact .inl
            ⟨error, congrArg (Except.map memory) failed, congrArg (Except.map memory) failed'⟩
        · exact .inr ⟨_, _, congrArg (Except.map memory) done, congrArg (Except.map memory) done',
            like⟩
    | rows _, rows _, like =>
        rcases RowStore.Like.persist like alike with
          ⟨error, failed, failed'⟩ | ⟨after, after', done, done', like⟩
        · exact .inl ⟨error, congrArg (Except.map rows) failed, congrArg (Except.map rows) failed'⟩
        · exact .inr ⟨_, _, congrArg (Except.map rows) done, congrArg (Except.map rows) done', like⟩
    | unwritable _, unwritable _, _ => exact .inl ⟨_, rfl, rfl⟩

end Backend
end AuditTrail
