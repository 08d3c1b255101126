import AuditTrail.Proofs.Capture.Closed
import AuditTrail.Proofs.Journal.Run

/-!
# The latest state of a journal

Which nodes are live after an operation, and with which snapshots, follows from what was live before
and from what is due.  A node that is captured is live with a state that it does not differ from; a
value object that is dropped is not; everything else is as it was.
-/

namespace AuditTrail

open Schema Comparison

/-- The newest snapshot of each node in a log, unless the node went away with it. -/
def CommitLog.live? (log : CommitLog) (id : GlobalId) : Option Snapshot :=
  (log.latest? id).filter fun snapshot => !snapshot.isTerminal

/-- A commit has the snapshots that are due, and no others. -/
def Commit.ConsistsOf (commit : Commit) (due : SnapshotKind → Node → Prop) : Prop :=
  ∀ kind node, (∃ snapshot ∈ commit.snapshots, snapshot.kind = kind ∧ snapshot.node = node) ↔
    due kind node

section Due

variable {log : CommitLog} {commit : Commit} {due : SnapshotKind → Node → Prop}
  {id : GlobalId} {snapshot : Snapshot}

theorem CommitLog.live?_eq_some_iff :
    log.live? id = some snapshot ↔ log.latest? id = some snapshot ∧ snapshot.kind ≠ .terminal := by
  simp [live?, Option.filter_eq_some_iff, Snapshot.isTerminal]

theorem CommitLog.id_of_live? (live : log.live? id = some snapshot) : snapshot.id = id :=
  id_of_latest? (live?_eq_some_iff.mp live).1

theorem CommitLog.mem_snapshots_of_live? (live : log.live? id = some snapshot) :
    snapshot ∈ log.snapshots :=
  Assembly.mem_snapshots_of_latest? (live?_eq_some_iff.mp live).1

theorem CommitLog.mem_ids_of_live? (live : (log.live? id).isSome) :
    id ∈ log.snapshots.map Snapshot.id := by
  obtain ⟨snapshot, found⟩ := Option.isSome_iff_exists.mp live
  rw [← id_of_live? found]
  exact List.mem_map_of_mem (mem_snapshots_of_live? found)

/-- What is live depends on the histories. -/
theorem CommitLog.live?_congr {other : CommitLog}
    (histories : ∀ id, log.history id = other.history id) : log.live? = other.live? := by
  funext id
  rw [live?, live?, latest?, latest?, histories]

/-- A snapshot that is written is the newest one. -/
theorem latest?_cons_of_mem (extends_log : commit.Extends log)
    (member : snapshot ∈ commit.snapshots) :
    CommitLog.latest? (commit :: log) snapshot.id = some snapshot := by
  rw [CommitLog.latest?, CommitLog.history_cons_of_mem extends_log.continues.distinct member]
  rfl

/-- What is due is live, unless it is an end. -/
theorem live?_of_due (extends_log : commit.Extends log) (consists : commit.ConsistsOf due)
    {kind : SnapshotKind} {node : Node} (is_due : due kind node) (goes_on : kind ≠ .terminal) :
    ∃ snapshot, CommitLog.live? (commit :: log) node.id = some snapshot ∧
      snapshot.node = node := by
  obtain ⟨snapshot, member, rfl, rfl⟩ := (consists kind node).mpr is_due
  exact ⟨snapshot,
    CommitLog.live?_eq_some_iff.mpr ⟨latest?_cons_of_mem extends_log member, goes_on⟩, rfl⟩

/-- What is due to end is not live. -/
theorem live?_of_ended (extends_log : commit.Extends log) (consists : commit.ConsistsOf due)
    {node : Node} (is_due : due .terminal node) :
    CommitLog.live? (commit :: log) node.id = none := by
  obtain ⟨snapshot, member, ended, rfl⟩ := (consists .terminal node).mpr is_due
  have newest : CommitLog.latest? (commit :: log) snapshot.node.id = some snapshot :=
    latest?_cons_of_mem extends_log member
  rw [CommitLog.live?, newest]
  simp [Snapshot.isTerminal, ended]

/-- Where nothing is due, everything is as it was. -/
theorem live?_of_undue (consists : commit.ConsistsOf due)
    (undue : ∀ kind node, due kind node → node.id ≠ id) :
    CommitLog.live? (commit :: log) id = log.live? id := by
  have absent : id ∉ commit.snapshots.map Snapshot.id := by
    intro written
    obtain ⟨snapshot, member, named⟩ := List.mem_map.mp written
    exact undue snapshot.kind snapshot.node
      ((consists _ _).mp ⟨snapshot, member, rfl, rfl⟩) named
  simp only [CommitLog.live?, CommitLog.latest?, CommitLog.history_cons_of_notMem absent]

/-- Where nothing but an end is due, a node stays live exactly if it does not end. -/
theorem live?_iff_of_ending (extends_log : commit.Extends log) (consists : commit.ConsistsOf due)
    {ends : Prop}
    (only : ∀ kind node, due kind node → node.id = id → ends ∧ (log.live? id).isSome)
    (ended : ∀ old, log.live? id = some old → ends → ∃ node, due .terminal node ∧ node.id = id) :
    CommitLog.live? (commit :: log) id = some snapshot ↔
      log.live? id = some snapshot ∧ ¬ ends := by
  by_cases ending : ends
  · simp only [ending, not_true_eq_false, and_false, iff_false]
    cases live : log.live? id with
    | none =>
        rw [live?_of_undue consists, live]
        · exact fun other => (nomatch other)
        · intro kind node is_due named
          have alive := (only kind node is_due named).2
          rw [live] at alive
          cases alive
    | some old =>
        obtain ⟨node, is_due, rfl⟩ := ended old live ending
        rw [live?_of_ended extends_log consists is_due]
        exact fun other => (nomatch other)
  · rw [live?_of_undue consists, and_iff_left ending]
    exact fun kind node is_due named => ending (only kind node is_due named).1

end Due

section Effects

variable {σ : Type} [Store σ] {contract : Store.Contract σ} {store : σ} {log : CommitLog}
  {commit : Commit} {types : TypeTable} {alignment : Alignment} {current : Graph}
  {id target : GlobalId} {snapshot : Snapshot} {node : Node}

theorem Store.Contract.live?_iff (contract : Store.Contract σ) (holds : contract.Holds store log) :
    Store.live? store id .latest = .ok (some snapshot) ↔ log.live? id = some snapshot := by
  rw [contract.live?_eq holds, Except.ok.injEq]
  rfl

/-- A captured node that does not differ from what was live stays as it was. -/
theorem live?_of_unchanged (holds : contract.Holds store log)
    (consists : commit.ConsistsOf (Commit.Due types alignment store current))
    (captured : current.find? id = some node) (live : log.live? id = some snapshot)
    (same : compareNodes types alignment (some snapshot.node) (some node) = []) :
    CommitLog.live? (commit :: log) id = some snapshot := by
  have answered := (contract.live?_iff holds).mpr live
  rw [live?_of_undue consists, live]
  rintro kind other is_due rfl
  cases is_due with
  | initial _ absent =>
      rw [answered] at absent
      cases absent
  | @update _ old found live differs =>
      obtain rfl : node = other := Option.some.inj (captured.symm.trans found)
      obtain rfl : snapshot = old :=
        Option.some.inj (Except.ok.inj (answered.symm.trans live))
      exact differs same
  | terminal _ _ _ dropped => exact dropped (mem_ids_of_captured captured)

/-- Any other captured node is live as it was captured. -/
theorem live?_of_changed (holds : contract.Holds store log) (extends_log : commit.Extends log)
    (consists : commit.ConsistsOf (Commit.Due types alignment store current))
    (captured : current.find? id = some node)
    (differs : ∀ old, log.live? id = some old →
      compareNodes types alignment (some old.node) (some node) ≠ []) :
    ∃ snapshot, CommitLog.live? (commit :: log) id = some snapshot ∧ snapshot.node = node := by
  obtain rfl : node.id = id := Graph.id_of_find? captured
  have answered : Store.live? store node.id .latest = .ok (log.live? node.id) :=
    contract.live?_eq holds node.id
  cases live : log.live? node.id with
  | none =>
      rw [live] at answered
      exact live?_of_due extends_log consists (.initial captured answered)
        fun other => (nomatch other)
  | some old =>
      rw [live] at answered
      exact live?_of_due extends_log consists (.update captured answered (differs old live))
        fun other => (nomatch other)

/-- A captured node is live, as it was captured or as it was before. -/
theorem live?_of_captured (holds : contract.Holds store log) (extends_log : commit.Extends log)
    (consists : commit.ConsistsOf (Commit.Due types alignment store current))
    (captured : current.find? id = some node) :
    ∃ snapshot, CommitLog.live? (commit :: log) id = some snapshot ∧
      (snapshot.node = node ∨ log.live? id = some snapshot ∧
        compareNodes types alignment (some snapshot.node) (some node) = []) := by
  by_cases differs : ∀ old, log.live? id = some old →
      compareNodes types alignment (some old.node) (some node) ≠ []
  · obtain ⟨snapshot, live, same⟩ := live?_of_changed holds extends_log consists captured differs
    exact ⟨snapshot, live, .inl same⟩
  · simp only [not_forall, not_not] at differs
    obtain ⟨old, live, same⟩ := differs
    exact ⟨old, live?_of_unchanged holds consists captured live same, .inr ⟨live, same⟩⟩

/-- A node that is not captured stays live exactly if it is not reached. -/
theorem live?_of_uncaptured (holds : contract.Holds store log) (extends_log : commit.Extends log)
    (consists : commit.ConsistsOf (Commit.Due types alignment store current))
    (absent : id ∉ current.ids) :
    CommitLog.live? (commit :: log) id = some snapshot ↔
      log.live? id = some snapshot ∧ ¬ Store.Reaches store current.ids id := by
  refine live?_iff_of_ending extends_log consists ?_ fun old live reached => ?_
  · rintro kind node is_due rfl
    cases is_due with
    | initial captured => exact absurd (mem_ids_of_captured captured) absent
    | update captured => exact absurd (mem_ids_of_captured captured) absent
    | terminal reached _ alive =>
        exact ⟨reached, Option.isSome_of_eq_some ((contract.live?_iff holds).mp alive)⟩
  · have answered := (contract.live?_iff holds).mpr live
    exact ⟨_, .terminal reached (reached.isValueObject absent) answered absent, rfl⟩

/-- Ending a node leaves live what it does not reach. -/
theorem live?_of_terminating (holds : contract.Holds store log) (extends_log : commit.Extends log)
    (consists : commit.ConsistsOf (Commit.DueAtEnd store id)) :
    CommitLog.live? (commit :: log) target = some snapshot ↔
      log.live? target = some snapshot ∧ ¬ Store.Reaches store [id] target := by
  refine live?_iff_of_ending extends_log consists ?_ fun old live reached => ?_
  · rintro kind node ⟨reached, alive⟩ rfl
    exact ⟨reached, Option.isSome_of_eq_some ((contract.live?_iff holds).mp alive)⟩
  · exact ⟨_, .terminal reached ((contract.live?_iff holds).mpr live), rfl⟩

end Effects

namespace Journal

variable {σ : Type} [Store σ]

omit [Store σ] in
/-- What a journal captures is closed, and of the types of the journal. -/
theorem capture_spec {journal : Journal σ} {heap : Heap} {roots : List Slot} {current : Graph}
    (captured : journal.capture heap roots = .ok current) :
    current.Closed ∧ ∀ node ∈ current.nodes.rows, node.Formed journal.types :=
  Capture.capture_spec (mapError_eq_ok_iff.mp captured)

/-- What an operation records: the metadata of its commit, and the snapshots that are due. -/
inductive Records (journal : Journal σ) :
    Operation → CommitMetadata → (SnapshotKind → Node → Prop) → Prop
  /-- Objects are captured. -/
  | commit {moment author properties heap roots current}
      (captured : journal.capture heap roots = .ok current) :
      Records journal (.commit moment author properties heap roots)
        (journal.stamp moment author properties).1
        (Commit.Due journal.types journal.settings.alignment journal.store current)
  /-- A node is ended. -/
  | delete {moment author id} :
      Records journal (.delete moment author id) (journal.stamp moment author .empty).1
        (Commit.DueAtEnd journal.store id)
  /-- The node of a live object is ended. -/
  | deleteObject {moment author heap slot id} (named : journal.idOf heap slot = .ok id) :
      Records journal (.deleteObject moment author heap slot)
        (journal.stamp moment author .empty).1 (Commit.DueAtEnd journal.store id)

variable (contract : Store.Contract σ) {journal : Journal σ} {log : CommitLog}
  {operation : Operation} {moment : Moment} {author : String} {commit : Commit}

/-- A commit that an attempt has stored is the one that was assembled. -/
theorem eq_of_written_persist {next : Journal σ} {assembled : Commit}
    (stored : (written (next.persist assembled)).1 = some commit) : commit = assembled := by
  unfold persist at stored
  split at stored
  · simp only [written, Option.ite_none_left_eq_some, Option.some.injEq] at stored
    exact stored.2.symm
  · cases stored

theorem commitGraph_records (holds : contract.Holds journal.store log) {properties : Labels}
    {current : Graph}
    (stored : (written (journal.commitGraph moment author properties current)).1 = some commit) :
    commit.metadata = (journal.stamp moment author properties).1 ∧
      commit.ConsistsOf
        (Commit.Due journal.types journal.settings.alignment journal.store current) := by
  obtain ⟨assembled, recorded, metadata, -, exactly, -⟩ := recording_spec contract holds
    journal.types journal.settings.diffOptions (journal.stamp moment author properties).1 current
  rw [commitGraph_of_recording recorded] at stored
  split at stored
  next empty => simp [written, empty] at stored
  next =>
    rw [eq_of_written_persist stored]
    exact ⟨metadata, exactly⟩

theorem delete_records (holds : contract.Holds journal.store log) {id : GlobalId}
    (stored : (written (journal.delete moment author id)).1 = some commit) :
    commit.metadata = (journal.stamp moment author .empty).1 ∧
      commit.ConsistsOf (Commit.DueAtEnd journal.store id) := by
  have answered : Store.live? journal.store id .latest = .ok (log.live? id) :=
    contract.live?_eq holds id
  cases found : log.live? id with
  | none =>
      rw [found] at answered
      rw [delete_of_ended (terminating_of_ended _ answered)] at stored
      cases stored
  | some live =>
      rw [found] at answered
      obtain ⟨assembled, assembles, metadata, -, exactly, -⟩ :=
        terminating_spec contract holds (journal.stamp moment author .empty).1 answered
      rw [delete_of_terminating assembles] at stored
      rw [eq_of_written_persist stored]
      exact ⟨metadata, exactly⟩

/-- A stored commit consists of what its operation records. -/
theorem step_records (holds : contract.Holds journal.store log)
    (stored : (journal.step operation).1 = some commit) :
    ∃ due, Records journal operation commit.metadata due ∧ commit.ConsistsOf due := by
  cases operation with
  | commit moment author properties heap roots =>
      simp only [step, Journal.commit] at stored
      split at stored
      · cases stored
      next current captured =>
        obtain ⟨metadata, consists⟩ := commitGraph_records contract holds stored
        rw [metadata]
        exact ⟨_, .commit captured, consists⟩
  | delete moment author id =>
      obtain ⟨metadata, consists⟩ := delete_records contract holds stored
      rw [metadata]
      exact ⟨_, .delete, consists⟩
  | deleteObject moment author heap slot =>
      simp only [step, Journal.deleteObject] at stored
      split at stored
      · cases stored
      next id named =>
        obtain ⟨metadata, consists⟩ := delete_records contract holds stored
        rw [metadata]
        exact ⟨_, .deleteObject named, consists⟩
  | reopen plan =>
      simp only [step] at stored
      split at stored <;> cases stored

/-- A stored commit continues the log that the store holds. -/
theorem extends_of_step (holds : contract.Holds journal.store log)
    (stored : (journal.step operation).1 = some commit) : commit.Extends log := by
  have advance : Advance (fun _ => True) journal log (journal.step operation) :=
    step_advance contract holds operation fun _ _ => trivial
  generalize journal.step operation = outcome at advance stored
  cases advance with
  | idle | stamped | reopened => cases stored
  | stored _ extends_log =>
      obtain rfl := Option.some.inj stored
      exact extends_log

/-- The store holds what an operation has stored in front of what it held. -/
theorem holds_step (holds : contract.Holds journal.store log) (operation : Operation)
    (fits : ∀ commit ∈ (journal.step operation).1, contract.Fits commit) :
    contract.Holds (journal.step operation).2.store ((journal.step operation).1.toList ++ log) := by
  have advance : Advance (fun _ => True) journal log (journal.step operation) :=
    step_advance contract holds operation fun _ _ => trivial
  exact advance.holds contract holds fits

/-- Behind a successful recording, with or without snapshots, its snapshots are in front of the
histories from before. -/
theorem histories_of_commitGraph (holds : contract.Holds journal.store log) {properties : Labels}
    {current : Graph}
    (recorded : (journal.commitGraph moment author properties current).1 = .ok commit)
    (fits : contract.Fits commit) :
    ∃ later, contract.Holds (journal.commitGraph moment author properties current).2.store later ∧
      ∀ id, later.history id = CommitLog.history (commit :: log) id := by
  have advance : Advance (fun _ => False) journal log
      (written (journal.commitGraph moment author properties current)) :=
    commitGraph_advance contract holds moment author properties current
  have stored : (written (journal.commitGraph moment author properties current)).1 =
      if commit.isEmpty then none else some commit := by
    generalize journal.commitGraph moment author properties current = outcome at recorded
    obtain ⟨answer, next⟩ := outcome
    cases recorded
    rfl
  have unchanged : (written (journal.commitGraph moment author properties current)).2 =
      (journal.commitGraph moment author properties current).2 := by
    unfold written
    split <;> simp_all
  have next := advance.holds contract holds fun other member => by
    rw [stored, Option.mem_def, Option.ite_none_left_eq_some] at member
    rwa [← Option.some.inj member.2]
  rw [stored, unchanged] at next
  by_cases empty : commit.isEmpty
  · rw [if_pos empty] at next
    refine ⟨log, next, fun id => (CommitLog.history_cons_of_notMem ?_).symm⟩
    rw [Commit.isEmpty, List.isEmpty_iff] at empty
    rw [empty]
    exact List.not_mem_nil
  · rw [if_neg empty] at next
    exact ⟨commit :: log, next, fun _ => rfl⟩

end Journal
end AuditTrail
