import AuditTrail.Commit.Assembly
import Mathlib

/-!
# The contract of stores

What a store holds is told by the log of the commits that went into it.  A contract ties the answers
of a store to such a log: histories are read off the log, numbers are bounded by those of the store,
and a commit that continues the log is stored unless its id is taken.
-/

namespace AuditTrail

namespace CommitId

variable {left right : CommitId}

theorem compare_eq (left right : CommitId) :
    compare left right =
      (compare left.major right.major).then (compare left.minor right.minor) := rfl

theorem lt_of_major_lt (majors : left.major < right.major) : compare left right = .lt := by
  rw [compare_eq, Nat.compare_eq_lt.mpr majors]
  rfl

/-- Ids are ordered by the leading, then by the trailing number. -/
theorem isLE_iff :
    (compare left right).isLE ↔
      left.major < right.major ∨ left.major = right.major ∧ left.minor ≤ right.minor := by
  rw [compare_eq]
  rcases Nat.lt_trichotomy left.major right.major with below | same | above
  · simp [Nat.compare_eq_lt.mpr below, below]
  · simp [same, Nat.isLE_compare]
  · simp [Nat.compare_eq_gt.mpr above, Nat.lt_asymm above, Nat.ne_of_gt above]

theorem major_le_of_isLE (below : (compare left right).isLE) : left.major ≤ right.major := by
  have order := isLE_iff.mp below
  omega

end CommitId

namespace Query

variable {α β : Type} {query : Query}

theorem cut_of_unlimited (unlimited : query.limit = none) (items : List α) :
    query.cut items = items := by
  rw [cut, unlimited]

theorem cut_sublist (query : Query) (items : List α) : (query.cut items).Sublist items := by
  unfold cut
  split
  · exact .refl _
  · exact List.take_sublist ..

theorem map_cut (query : Query) (f : α → β) (items : List α) :
    (query.cut items).map f = query.cut (items.map f) := by
  unfold cut
  cases query.limit with
  | none => rfl
  | some limit => exact List.map_take

/-- Only snapshots of a history are selected from it. -/
theorem mem_of_select {history : List Snapshot} {snapshot : Snapshot}
    (selected : snapshot ∈ query.select history) : snapshot ∈ history :=
  (List.mem_filter.mp ((query.cut_sublist _).subset selected)).1

end Query

/-- Stored commits, the newest first. -/
abbrev CommitLog := List Commit

namespace CommitLog

/-- All snapshots of a log, in the opposite order of writing. -/
def snapshots (log : CommitLog) : List Snapshot :=
  log.flatMap fun commit => commit.snapshots.reverse

/-- The snapshots of a node, newest first. -/
def history (log : CommitLog) (id : GlobalId) : List Snapshot :=
  log.snapshots.filter fun snapshot => snapshot.id == id

/-- The newest snapshot of a node. -/
def latest? (log : CommitLog) (id : GlobalId) : Option Snapshot := (log.history id).head?

/-- The version of the newest snapshot of a node, zero if there is none. -/
def version (log : CommitLog) (id : GlobalId) : Nat := ((log.latest? id).map (·.version)).getD 0

/-- A commit continues a log if it has at most one snapshot of each node, and a newer one than the
log. -/
structure Continues (log : CommitLog) (commit : Commit) : Prop where
  /-- No node occurs twice. -/
  distinct : (commit.snapshots.map Snapshot.id).Nodup
  /-- Every version is newer than the one in the log. -/
  newer : ∀ snapshot ∈ commit.snapshots, log.version snapshot.id < snapshot.version

variable {log : CommitLog} {commit : Commit} {id : GlobalId} {snapshot : Snapshot}

theorem id_of_mem_history (member : snapshot ∈ log.history id) : snapshot.id = id :=
  beq_iff_eq.mp (List.mem_filter.mp member).2

theorem id_of_latest? (found : log.latest? id = some snapshot) : snapshot.id = id :=
  id_of_mem_history (List.mem_of_mem_head? found)

theorem mem_history (member : commit ∈ log) (written : snapshot ∈ commit.snapshots) :
    snapshot ∈ log.history snapshot.id := by
  rw [history, snapshots, List.mem_filter, List.mem_flatMap]
  exact ⟨⟨commit, member, List.mem_reverse.mpr written⟩, beq_self_eq_true _⟩

theorem history_cons (commit : Commit) (log : CommitLog) (id : GlobalId) :
    history (commit :: log) id =
      (commit.snapshots.filter fun snapshot => snapshot.id == id).reverse ++ log.history id := by
  rw [history, snapshots, List.flatMap_cons, List.filter_append, List.filter_reverse]
  rfl

/-- Nodes without a snapshot in a commit keep their history. -/
theorem history_cons_of_notMem (absent : id ∉ commit.snapshots.map Snapshot.id) :
    history (commit :: log) id = log.history id := by
  have none : (commit.snapshots.filter fun snapshot => snapshot.id == id) = [] := by
    rw [List.filter_eq_nil_iff]
    intro snapshot member same
    exact absent (beq_iff_eq.mp same ▸ List.mem_map_of_mem member)
  rw [history_cons, none, List.reverse_nil, List.nil_append]

theorem filter_id_eq_singleton {snapshots : List Snapshot}
    (distinct : (snapshots.map Snapshot.id).Nodup) (member : snapshot ∈ snapshots) :
    (snapshots.filter fun other => other.id == snapshot.id) = [snapshot] := by
  induction snapshots with
  | nil => cases member
  | cons head rest induction =>
      obtain ⟨fresh, rest_distinct⟩ := List.nodup_cons.mp distinct
      rcases List.mem_cons.mp member with rfl | member
      · rw [List.filter_cons, if_pos (beq_self_eq_true snapshot.id), List.cons.injEq]
        refine ⟨rfl, List.filter_eq_nil_iff.mpr fun other other_mem same => fresh ?_⟩
        exact beq_iff_eq.mp same ▸ List.mem_map_of_mem other_mem
      · rw [List.filter_cons_of_neg, induction rest_distinct member]
        intro same
        exact fresh (beq_iff_eq.mp same ▸ List.mem_map_of_mem member)

/-- A snapshot in a commit comes in front of the history of its node. -/
theorem history_cons_of_mem (distinct : (commit.snapshots.map Snapshot.id).Nodup)
    (member : snapshot ∈ commit.snapshots) :
    history (commit :: log) snapshot.id = snapshot :: log.history snapshot.id := by
  rw [history_cons, filter_id_eq_singleton distinct member, List.reverse_singleton,
    List.singleton_append]

end CommitLog

/-- What a store promises about a log of the commits in it. -/
structure Store.Contract (σ : Type) [Store σ] where
  /-- The store without commits. -/
  empty : σ
  /-- Commits that can be read back as they were written. -/
  Fits : Commit → Prop
  /-- The store holds the commits of a log and nothing else. -/
  Holds : σ → CommitLog → Prop
  /-- The store without commits holds the empty log. -/
  holds_empty : Holds empty []
  /-- Histories are those of the log. -/
  snapshotsOf_eq {store : σ} {log : CommitLog} (holds : Holds store log) (id : GlobalId)
    {query : Query} (unbounded : query.bound = none) :
    Store.snapshotsOf store id query = .ok (query.select (log.history id))
  /-- No id is above the highest one. -/
  le_head {store : σ} {log : CommitLog} (holds : Holds store log) {commit : Commit}
    (member : commit ∈ log) :
    ∃ head, Store.head? store = some head ∧ (compare commit.id head).isLE
  /-- The highest id is one of the log. -/
  head_mem {store : σ} {log : CommitLog} (holds : Holds store log) {head : CommitId}
    (found : Store.head? store = some head) : head ∈ log.map Commit.id
  /-- No sequence number is above the highest one. -/
  le_lastSequence {store : σ} {log : CommitLog} (holds : Holds store log) {commit : Commit}
    (member : commit ∈ log) : commit.metadata.sequence ≤ Store.lastSequence store
  /-- All snapshots of the log are counted. -/
  snapshotCount_eq {store : σ} {log : CommitLog} (holds : Holds store log) :
    Store.snapshotCount store = log.snapshots.length
  /-- A commit that continues the log is stored if its id is new. -/
  persist_fresh {store : σ} {log : CommitLog} (holds : Holds store log) {commit : Commit}
    (continues : log.Continues commit) (fits : Fits commit)
    (fresh : commit.id ∉ log.map Commit.id) :
    ∃ after, Store.persist store commit = .ok after ∧ Holds after (commit :: log)
  /-- A commit whose id is taken is refused. -/
  persist_taken {store : σ} {log : CommitLog} (holds : Holds store log) {commit : Commit}
    (taken : commit.id ∈ log.map Commit.id) :
    Store.persist store commit = .error (.duplicateCommit commit.id)

namespace Store.Contract

variable {σ : Type} [Store σ] (contract : Store.Contract σ) {store : σ} {log : CommitLog}

theorem latest?_eq (holds : contract.Holds store log) (id : GlobalId) :
    Store.latest? store id = .ok (log.latest? id) := by
  rw [Store.latest?, Store.first?, contract.snapshotsOf_eq holds id rfl]
  have admitted : (log.history id).filter Query.latest.admits = log.history id :=
    List.filter_eq_self.mpr fun _ _ => rfl
  simp only [Query.select, admitted, CommitLog.latest?]
  cases log.history id <;> rfl

theorem live?_eq (holds : contract.Holds store log) (id : GlobalId) :
    Store.live? store id .latest =
      .ok ((log.latest? id).filter fun snapshot => !snapshot.isTerminal) := by
  have first := contract.latest?_eq holds id
  rw [Store.latest?] at first
  rw [Store.live?, first]
  rfl

theorem history_eq (holds : contract.Holds store log) (id : GlobalId) :
    Store.snapshotsOf store id .all = .ok (log.history id) := by
  rw [contract.snapshotsOf_eq holds id rfl]
  exact congrArg Except.ok (List.filter_eq_self.mpr fun _ _ => rfl)

end Store.Contract
end AuditTrail
