import AuditTrail.Proofs.Store.Bounds
import AuditTrail.Proofs.Store.Gains

/-!
# Versions in stored histories

A store is offered arbitrary commits, of which it takes some and refuses others.  The store in
memory compares a commit with what is stored, but not its snapshots with each other, and the store
in rows sorts by a signed column.  So histories list strictly descending versions exactly as long as
every commit taken in memory goes up in the versions of each node, and as long as the versions of a
node are, as columns, on one side of zero.
-/

namespace AuditTrail

namespace Store

variable {σ : Type} [Store σ]

/-- Offer a commit to a store, which stays as it is if it refuses. -/
def offer (store : σ) (commit : Commit) : σ :=
  match persist store commit with
  | .ok after => after
  | .error _ => store

/-- Offer commits one after another. -/
def offerAll (store : σ) (commits : List Commit) : σ := commits.foldl offer store

/-- Those of the commits that the store takes when they are offered one after another. -/
def taken (store : σ) : List Commit → List Commit
  | [] => []
  | commit :: rest =>
    match persist store commit with
    | .ok after => commit :: taken after rest
    | .error _ => taken store rest

/-- What holds of a store and of nothing taken, and lasts with every commit that is taken, holds of
the store and of what was taken in the end. -/
theorem offerAll_induction {motive : σ → List Commit → Prop} {store : σ} (start : motive store [])
    (step : ∀ {store after earlier commit}, motive store earlier →
      persist store commit = .ok after → motive after (earlier ++ [commit]))
    (commits : List Commit) : motive (offerAll store commits) (taken store commits) := by
  have run (earlier : List Commit) (holds : motive store earlier) :
      motive (offerAll store commits) (earlier ++ taken store commits) := by
    clear start
    induction commits generalizing store earlier with
    | nil => rwa [taken, List.append_nil]
    | cons commit rest induction =>
        rw [offerAll, List.foldl_cons, ← offerAll, offer, taken]
        cases persisted : persist store commit with
        | error => exact induction earlier holds
        | ok after =>
            rw [List.append_cons]
            exact induction (earlier ++ [commit]) (step holds persisted)
  exact run [] start

end Store

/-- The snapshots that commits write of a node, in the order of writing. -/
def written (commits : List Commit) (id : GlobalId) : List Snapshot :=
  commits.flatMap fun commit => commit.snapshots.filter fun snapshot => snapshot.id == id

theorem written_append (earlier : List Commit) (commit : Commit) (id : GlobalId) :
    written (earlier ++ [commit]) id =
      written earlier id ++ commit.snapshots.filter fun snapshot => snapshot.id == id := by
  simp [written]

/-- Newer snapshots have greater versions, the newest one standing first. -/
def Descending (history : List Snapshot) : Prop :=
  history.Pairwise fun newer older => older.version < newer.version

/-- The commit goes up in the versions of a node. -/
def Commit.Ascends (commit : Commit) (id : GlobalId) : Prop :=
  (commit.snapshots.filter fun snapshot => snapshot.id == id).Pairwise
    fun older newer => older.version < newer.version

instance (history : List Snapshot) : Decidable (Descending history) :=
  inferInstanceAs (Decidable (List.Pairwise _ _))

instance (commit : Commit) (id : GlobalId) : Decidable (commit.Ascends id) :=
  inferInstanceAs (Decidable (List.Pairwise _ _))

namespace MemoryStore

variable {store after : MemoryStore} {commit : Commit} {id : GlobalId}

theorem snapshotsOf_all (store : MemoryStore) (id : GlobalId) :
    Store.snapshotsOf store id .all = .ok (store.history id) :=
  congrArg Except.ok (List.filter_eq_self.mpr fun _ _ => rfl)

/-- The newest snapshot of a history that goes down has the greatest version. -/
theorem le_latestVersion (descending : Descending (store.history id)) {snapshot : Snapshot}
    (member : snapshot ∈ store.history id) : snapshot.version ≤ store.latestVersion id := by
  rw [latestVersion]
  cases recorded : store.history id with
  | nil => rw [recorded] at member; cases member
  | cons newest older =>
      rw [recorded] at descending member
      rcases List.mem_cons.mp member with rfl | earlier
      · exact le_rfl
      · exact ((List.pairwise_cons.mp descending).1 snapshot earlier).le

/-- A commit that is taken is newer than what is stored. -/
theorem newer_of_persist (persisted : store.persist commit = .ok after) {snapshot : Snapshot}
    (member : snapshot ∈ commit.snapshots) :
    store.latestVersion snapshot.id < snapshot.version := by
  unfold persist at persisted
  split_ifs at persisted
  split at persisted
  · cases persisted
  next fresh => simpa using List.find?_eq_none.mp fresh snapshot member

/-- A history goes down once a commit is taken if it did so before and the commit goes up. -/
theorem descending_persist_iff (persisted : store.persist commit = .ok after) :
    Descending (after.history id) ↔ Descending (store.history id) ∧ commit.Ascends id := by
  obtain ⟨-, rfl⟩ := of_persist persisted
  rw [history_adding, Descending, List.pairwise_append, List.pairwise_reverse, ← Descending,
    ← Commit.Ascends, and_comm (a := commit.Ascends id), and_assoc, and_congr_right_iff]
  intro descending
  refine and_iff_right fun newer newer_mem older older_mem => ?_
  obtain ⟨member, named⟩ := List.mem_filter.mp (List.mem_reverse.mp newer_mem)
  obtain rfl := beq_iff_eq.mp named
  exact (le_latestVersion descending older_mem).trans_lt (newer_of_persist persisted member)

/-- Histories go down exactly as long as the commits that are taken go up. -/
theorem descending_offerAll_iff (commits : List Commit) (id : GlobalId) :
    Descending ((Store.offerAll empty commits).history id) ↔
      ∀ commit ∈ Store.taken empty commits, commit.Ascends id := by
  refine Store.offerAll_induction (motive := fun (store : MemoryStore) earlier =>
    Descending (store.history id) ↔ ∀ commit ∈ earlier, commit.Ascends id) ?_ ?_ commits
  · exact iff_of_true .nil fun _ member => nomatch member
  · intro store after earlier commit holds persisted
    rw [descending_persist_iff persisted, holds, List.forall_mem_append, List.forall_mem_singleton]

end MemoryStore

/-- Words that go strictly down as columns do so themselves exactly if they are on one side. -/
theorem Column.pairwise_lt_iff {words : List Nat} (fit : ∀ word ∈ words, word < 2 ^ 64)
    (columns : words.Pairwise fun first second => ofNat second < ofNat first) :
    words.Pairwise (fun first second => second < first) ↔ words.Pairwise SameSide := by
  constructor
  · intro descending
    refine (columns.and descending).imp_of_mem fun {first second} first_mem second_mem below => ?_
    by_contra sides
    have above := (ofNat_lt_iff_gt (fit second second_mem) (fit first first_mem)
      fun same => sides same.symm).mp below.1
    omega
  · intro sides
    refine (columns.and sides).imp_of_mem fun {first second} first_mem second_mem below => ?_
    exact (ofNat_lt_iff (fit second second_mem) (fit first first_mem) below.2.symm).mp below.1

namespace Snapshot

/-- What is read of the snapshot once it has been written to a row. -/
def reread (snapshot : Snapshot) : Except StoreError Snapshot :=
  Payload.decode "snapshot" decode? (Payload.encode "snapshot" snapshot.encode)

/-- What is read has the version that was written, which fits into a word. -/
theorem version_of_reread {snapshot found : Snapshot} (read : snapshot.reread = .ok found) :
    found.version = snapshot.version ∧ snapshot.version < 2 ^ 64 := by
  rw [reread, Payload.decode_encode_eq (by decide) _ snapshot.plain_encode] at read
  cases decoded : decode? (Codec.nestingLimit - 1) snapshot.encode with
  | none => rw [decoded] at read; cases read
  | some other =>
      rw [decoded] at read
      obtain rfl := Except.ok.inj read
      exact version_of_decode? decoded

end Snapshot

namespace RowStore

variable {store : RowStore} {id : GlobalId}

/-- What is stored of a node is what the commits wrote of it. -/
structure Keeps (store : RowStore) (commits : List Commit) (id : GlobalId) : Prop where
  /-- The tables satisfy what tables always satisfy. -/
  sound : store.Sound
  /-- The rows of the node are those of what the commits wrote. -/
  rows : (store.selected id .all).map (fun row => (row.version, readRow row)) =
    (written commits id).map fun snapshot => (Column.ofNat snapshot.version, snapshot.reread)

theorem keeps_offerAll (commits : List Commit) (id : GlobalId) :
    (Store.offerAll empty commits).Keeps (Store.taken empty commits) id := by
  refine Store.offerAll_induction (motive := fun (store : RowStore) earlier =>
    store.Keeps earlier id) ⟨sound_empty, rfl⟩ ?_ commits
  intro store after earlier commit keeps persisted
  obtain ⟨fresh, rfl, sound⟩ := keeps.sound.of_persist persisted
  refine ⟨sound, ?_⟩
  have unbounded : admitsCommit .all (.ofMetadata commit.metadata) = true := rfl
  have row_eq : (fun row => (row.version, readRow row)) ∘ SnapshotRow.ofSnapshot commit.id =
      fun snapshot => (Column.ofNat snapshot.version, snapshot.reread) := by
    funext snapshot
    rw [Function.comp_apply, SnapshotRow.ofSnapshot, readRow, Snapshot.reread]
  rw [selected_adding keeps.sound fresh, List.map_append, keeps.rows, written_append,
    List.map_append, List.map_map, row_eq]
  simp only [unbounded, Bool.and_true]

/-- What is listed goes strictly down in its columns. -/
theorem columns_of_listed (sound : store.Sound) :
    (store.matching id .all).Pairwise fun newer older => older.version < newer.version := by
  have sorted : (store.matching id .all).Pairwise fun newer older =>
      older.version ≤ newer.version := pairwise_mergeSort _
  have distinct : ((store.matching id .all).map (·.version)).Nodup :=
    ((List.mergeSort_perm _ _).map _).nodup_iff.mpr (sound.versions_nodup id .all)
  exact sorted.imp₂ (fun _ _ le ne => lt_of_le_of_ne le (Ne.symm ne))
    (List.pairwise_map.mp distinct)

theorem snapshotsOf_eq_ok_iff {query : Query} {history : List Snapshot} :
    Store.snapshotsOf store id query = .ok history ↔
      (store.matching id query).map readRow = history.map .ok := by
  rw [← mapM_self_eq_ok_iff, List.mapM_map]
  rfl

/-- The version of a snapshot that is read, zero if none is. -/
def versionRead (answer : Except StoreError Snapshot) : Nat :=
  (answer.toOption.map (·.version)).getD 0

section Listing

variable {commits : List Commit} (keeps : store.Keeps commits id)

include keeps

theorem Keeps.perm :
    ((store.matching id .all).map fun row => (row.version, readRow row)).Perm
      ((written commits id).map fun snapshot =>
        (Column.ofNat snapshot.version, snapshot.reread)) := by
  rw [← keeps.rows]
  exact (List.mergeSort_perm _ _).map _

/-- A history is listed exactly if all that was written of the node can be read. -/
theorem Keeps.listed_iff :
    (∃ history, Store.snapshotsOf store id .all = .ok history) ↔
      ∀ snapshot ∈ written commits id, ∃ found, snapshot.reread = .ok found := by
  have same : ((store.matching id .all).map readRow).Perm
      ((written commits id).map Snapshot.reread) := by
    simpa [List.map_map, Function.comp_def] using keeps.perm.map Prod.snd
  simp only [snapshotsOf_eq_ok_iff]
  constructor
  · rintro ⟨history, read⟩ snapshot member
    have answer := same.symm.subset (List.mem_map_of_mem (f := Snapshot.reread) member)
    rw [read] at answer
    obtain ⟨found, -, eq⟩ := List.mem_map.mp answer
    exact ⟨found, eq.symm⟩
  · intro readable
    refine ⟨_, eq_map_toOption fun answer member => ?_⟩
    obtain ⟨snapshot, snapshot_mem, rfl⟩ := List.mem_map.mp (same.subset member)
    exact readable snapshot snapshot_mem

/-- A history has the versions that were written, which fit into words, and goes strictly down in
their columns. -/
theorem Keeps.versions {history : List Snapshot}
    (answered : Store.snapshotsOf store id .all = .ok history) :
    (history.map (·.version)).Perm ((written commits id).map (·.version)) ∧
      (history.map (·.version)).Pairwise (fun newer older =>
        Column.ofNat older < Column.ofNat newer) ∧
      ∀ version ∈ history.map (·.version), version < 2 ^ 64 := by
  have readable := keeps.listed_iff.mp ⟨history, answered⟩
  have reread_version {snapshot : Snapshot} (member : snapshot ∈ written commits id) :
      versionRead snapshot.reread = snapshot.version ∧ snapshot.version < 2 ^ 64 := by
    obtain ⟨found, read⟩ := readable snapshot member
    have version := Snapshot.version_of_reread read
    exact ⟨by rw [read]; exact version.1, version.2⟩
  have row_version {row : SnapshotRow} (member : row ∈ store.matching id .all) :
      row.version = Column.ofNat (versionRead (readRow row)) ∧
        versionRead (readRow row) < 2 ^ 64 := by
    have shown := keeps.perm.subset
      (List.mem_map_of_mem (f := fun row => (row.version, readRow row)) member)
    obtain ⟨snapshot, snapshot_mem, same⟩ := List.mem_map.mp shown
    obtain ⟨column, read⟩ := Prod.mk.inj same
    obtain ⟨version, word⟩ := reread_version snapshot_mem
    rw [← read, ← column, version]
    exact ⟨rfl, word⟩
  have versions : history.map (·.version) =
      (store.matching id .all).map (versionRead ∘ readRow) := by
    rw [← List.map_map, snapshotsOf_eq_ok_iff.mp answered, List.map_map]
    rfl
  rw [versions]
  refine ⟨?_, ?_, List.forall_mem_map.mpr fun row member => (row_version member).2⟩
  · have perm := keeps.perm.map fun shown => versionRead shown.2
    rw [List.map_map, List.map_map] at perm
    refine perm.trans (List.Perm.of_eq (List.map_congr_left fun snapshot member => ?_))
    exact (reread_version member).1
  · refine List.pairwise_map.mpr ((columns_of_listed keeps.sound).imp_of_mem ?_)
    intro newer older newer_mem older_mem below
    rwa [(row_version newer_mem).1, (row_version older_mem).1] at below

/-- A history goes down exactly if its versions are on one side as columns. -/
theorem Keeps.descending_iff {history : List Snapshot}
    (answered : Store.snapshotsOf store id .all = .ok history) :
    Descending history ↔
      (written commits id).Pairwise fun snapshot other =>
        Column.SameSide snapshot.version other.version := by
  obtain ⟨perm, columns, words⟩ := keeps.versions answered
  have sides : (history.map (·.version)).Pairwise Column.SameSide ↔
      ((written commits id).map (·.version)).Pairwise Column.SameSide :=
    perm.pairwise_iff fun same => same.symm
  rw [List.pairwise_map (l := written commits id)] at sides
  rw [← sides, ← Column.pairwise_lt_iff words columns, List.pairwise_map, Descending]

end Listing

end RowStore

/-- Whatever commits are offered to an empty store: in memory, the history of a node lists strictly
descending versions exactly if every commit that was taken goes up in the versions of the node; in
rows, exactly if all that was written of the node can be read, and its versions are all below
`2 ^ 63` or all from there on. -/
theorem descending_offered_iff (commits : List Commit) (id : GlobalId) :
    ((∃ history, Store.snapshotsOf (Store.offerAll MemoryStore.empty commits) id .all =
        .ok history ∧ Descending history) ↔
      ∀ commit ∈ Store.taken MemoryStore.empty commits, commit.Ascends id) ∧
    ((∃ history, Store.snapshotsOf (Store.offerAll RowStore.empty commits) id .all = .ok history ∧
        Descending history) ↔
      (∀ snapshot ∈ written (Store.taken RowStore.empty commits) id,
        ∃ found, snapshot.reread = .ok found) ∧
      (written (Store.taken RowStore.empty commits) id).Pairwise fun snapshot other =>
        Column.SameSide snapshot.version other.version) := by
  constructor
  · rw [← MemoryStore.descending_offerAll_iff]
    simp only [MemoryStore.snapshotsOf_all, Except.ok.injEq, exists_eq_left']
  · have keeps := RowStore.keeps_offerAll commits id
    rw [← keeps.listed_iff]
    constructor
    · rintro ⟨history, answered, descending⟩
      exact ⟨⟨history, answered⟩, (keeps.descending_iff answered).mp descending⟩
    · rintro ⟨⟨history, answered⟩, sides⟩
      exact ⟨history, answered, (keeps.descending_iff answered).mpr sides⟩

/-- A commit with two first snapshots of one node is taken in memory. -/
theorem not_descending_repeated :
    ¬ ∀ (commits : List Commit) (id : GlobalId),
      (∃ history, Store.snapshotsOf (Store.offerAll MemoryStore.empty commits) id .all =
          .ok history ∧ Descending history) ∧
        ∃ history, Store.snapshotsOf (Store.offerAll RowStore.empty commits) id .all =
          .ok history ∧ Descending history := by
  let metadata : CommitMetadata := ⟨⟨1, 0⟩, "author", 0, 1, .empty⟩
  let node : Node := ⟨.entity "User" (.int 1), "User", .empty⟩
  let first : Snapshot := .following metadata node .initial [] none
  let commit : Commit := ⟨metadata, ⟨[]⟩, [first, first]⟩
  intro descending
  obtain ⟨⟨history, answered, goes_down⟩, -⟩ := descending [commit] node.id
  rw [MemoryStore.snapshotsOf_all, Except.ok.injEq] at answered
  rw [← answered, MemoryStore.descending_offerAll_iff] at goes_down
  have taken : commit ∈ Store.taken MemoryStore.empty [commit] := List.mem_singleton_self commit
  exact absurd (goes_down commit taken) (by decide)

end AuditTrail
