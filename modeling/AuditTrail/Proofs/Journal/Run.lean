import AuditTrail.Journal
import AuditTrail.Proofs.Commit.Assembly
import AuditTrail.Proofs.Store.Memory

/-!
# Runs of journals

A run carries out one operation after another on a journal, and may close it and open another one
over the same store at any point.  Each operation leaves the store as it is or adds one commit that
continues the histories in it; numbers that are taken are never given out again.
-/

namespace AuditTrail

/-- A commit has a smaller id and a smaller sequence number than another one. -/
structure Commit.Precedes (older newer : Commit) : Prop where
  /-- Its id is smaller. -/
  ids : compare older.id newer.id = .lt
  /-- Its sequence number is smaller. -/
  sequences : older.metadata.sequence < newer.metadata.sequence

namespace Journal

open Schema

variable {σ : Type} [Store σ]

/-- What is asked of a journal. -/
inductive Operation where
  /-- Record the current state of the objects that the roots lead to. -/
  | commit (moment : Moment) (author : String) (properties : Labels) (heap : Heap)
    (roots : List Slot)
  /-- End a node together with the value objects it reaches. -/
  | delete (moment : Moment) (author : String) (id : GlobalId)
  /-- End the node of a live object together with the value objects it reaches. -/
  | deleteObject (moment : Moment) (author : String) (heap : Heap) (slot : Slot)
  /-- Close the journal and open another one over the store. -/
  | reopen (plan : JournalPlan)

/-- The commit that an attempt has stored, if any, and the journal behind it.  An empty commit is
not stored. -/
def written (outcome : Except AuditError Commit × Journal σ) : Option Commit × Journal σ :=
  match outcome with
  | (.ok commit, journal) => (if commit.isEmpty then none else some commit, journal)
  | (.error _, journal) => (none, journal)

/-- Carry out an operation.  If a journal cannot be opened, the one before stays in use. -/
def step (journal : Journal σ) : Operation → Option Commit × Journal σ
  | .commit moment author properties heap roots =>
    written (journal.commit moment author properties heap roots)
  | .delete moment author id => written (journal.delete moment author id)
  | .deleteObject moment author heap slot =>
    written (journal.deleteObject moment author heap slot)
  | .reopen plan =>
    match start plan journal.store with
    | .ok reopened => (none, reopened)
    | .error _ => (none, journal)

/-- Carry out operations in order; the stored commits come in the order of storing. -/
def run (journal : Journal σ) : List Operation → List Commit × Journal σ
  | [] => ([], journal)
  | operation :: rest =>
    let (stored, next) := journal.step operation
    let (later, final) := next.run rest
    (stored.toList ++ later, final)

theorem run_cons (journal : Journal σ) (operation : Operation) (rest : List Operation) :
    journal.run (operation :: rest) =
      ((journal.step operation).1.toList ++ ((journal.step operation).2.run rest).1,
        ((journal.step operation).2.run rest).2) := rfl

section Steps

/-- What one operation can do, where only some plans are used to open a journal again. -/
inductive Advance (allowed : JournalPlan → Prop) (journal : Journal σ) (log : CommitLog) :
    Option Commit × Journal σ → Prop
  /-- Nothing happens. -/
  | idle : Advance allowed journal log (none, journal)
  /-- Numbers are taken, but nothing is stored. -/
  | stamped (moment : Moment) (author : String) (properties : Labels) :
      Advance allowed journal log (none, (journal.stamp moment author properties).2)
  /-- Another journal is opened. -/
  | reopened {plan next} (permitted : allowed plan) (opened : start plan journal.store = .ok next) :
      Advance allowed journal log (none, next)
  /-- A commit is stored that continues the histories. -/
  | stored {moment author properties commit store}
      (metadata : commit.metadata = (journal.stamp moment author properties).1)
      (extends_log : commit.Extends log)
      (persisted : Store.persist journal.store commit = .ok store) :
      Advance allowed journal log
        (some commit, { (journal.stamp moment author properties).2 with store })

variable (contract : Store.Contract σ) {allowed : JournalPlan → Prop} {journal : Journal σ}
  {log : CommitLog}

theorem persist_advance {moment : Moment} {author : String} {properties : Labels} {commit : Commit}
    (metadata : commit.metadata = (journal.stamp moment author properties).1)
    (extends_log : commit.Extends log) (filled : ¬ commit.isEmpty) :
    Advance allowed journal log
      (written ((journal.stamp moment author properties).2.persist commit)) := by
  have same_store : (journal.stamp moment author properties).2.store = journal.store := rfl
  rw [persist, same_store]
  cases persisted : Store.persist journal.store commit with
  | error => exact .stamped moment author properties
  | ok store =>
      simp only [written, filled, Bool.false_eq_true, if_false]
      exact .stored metadata extends_log persisted

/-- An attempt to record takes numbers and assembles a commit, which is stored unless it is
empty. -/
theorem commitGraph_eq (journal : Journal σ) (moment : Moment) (author : String)
    (properties : Labels) (current : Graph) :
    journal.commitGraph moment author properties current =
      match Commit.recording journal.types journal.settings.diffOptions journal.store
        (journal.stamp moment author properties).1 current with
      | .error error => (.error (.store error), (journal.stamp moment author properties).2)
      | .ok commit =>
        if commit.isEmpty then (.ok commit, (journal.stamp moment author properties).2)
        else (journal.stamp moment author properties).2.persist commit := rfl

/-- An attempt to end a node takes numbers and assembles a commit, which is stored. -/
theorem delete_eq (journal : Journal σ) (moment : Moment) (author : String) (id : GlobalId) :
    journal.delete moment author id =
      match Commit.terminating journal.store (journal.stamp moment author .empty).1 id with
      | .error error => (.error (.store error), (journal.stamp moment author .empty).2)
      | .ok none => (.error (.notFound id), (journal.stamp moment author .empty).2)
      | .ok (some commit) => (journal.stamp moment author .empty).2.persist commit := rfl

/-- What is answered with a commit is the commit that was to be stored. -/
theorem eq_of_persist {given commit : Commit} (stored : (journal.persist given).1 = .ok commit) :
    given = commit := by
  unfold persist at stored
  split at stored
  next => exact Except.ok.inj stored
  next => cases stored

/-- A recording is answered with the commit that was assembled, stored or not. -/
theorem recording_of_commitGraph {moment : Moment} {author : String} {properties : Labels}
    {current : Graph} {commit : Commit}
    (recorded : (journal.commitGraph moment author properties current).1 = .ok commit) :
    Commit.recording journal.types journal.settings.diffOptions journal.store
      (journal.stamp moment author properties).1 current = .ok commit := by
  rw [commitGraph_eq] at recorded
  split at recorded
  next => cases recorded
  next assembled found =>
    rw [found]
    split at recorded
    next => exact congrArg Except.ok (Except.ok.inj recorded)
    next => exact congrArg Except.ok (eq_of_persist recorded)

/-- Recording takes numbers and may change the store, but nothing else. -/
theorem exists_store_of_commitGraph (journal : Journal σ) (moment : Moment) (author : String)
    (properties : Labels) (current : Graph) :
    ∃ store, (journal.commitGraph moment author properties current).2 =
      { (journal.stamp moment author properties).2 with store } := by
  rw [commitGraph_eq]
  split
  next => exact ⟨_, rfl⟩
  next =>
    split
    next => exact ⟨_, rfl⟩
    next =>
      unfold persist
      split <;> exact ⟨_, rfl⟩

/-- An attempt to record stores the assembled commit unless it is empty. -/
theorem commitGraph_of_recording {moment : Moment} {author : String} {properties : Labels}
    {current : Graph} {commit : Commit}
    (recorded : Commit.recording journal.types journal.settings.diffOptions journal.store
      (journal.stamp moment author properties).1 current = .ok commit) :
    journal.commitGraph moment author properties current =
      if commit.isEmpty then (.ok commit, (journal.stamp moment author properties).2)
      else (journal.stamp moment author properties).2.persist commit := by
  rw [commitGraph_eq, recorded]

/-- An attempt to end a node that is not live stores nothing. -/
theorem delete_of_ended {moment : Moment} {author : String} {id : GlobalId}
    (ended : Commit.terminating journal.store (journal.stamp moment author .empty).1 id =
      .ok none) :
    journal.delete moment author id =
      (.error (.notFound id), (journal.stamp moment author .empty).2) := by
  rw [delete_eq, ended]

/-- An attempt to end a live node stores the assembled commit. -/
theorem delete_of_terminating {moment : Moment} {author : String} {id : GlobalId} {commit : Commit}
    (assembled : Commit.terminating journal.store (journal.stamp moment author .empty).1 id =
      .ok (some commit)) :
    journal.delete moment author id = (journal.stamp moment author .empty).2.persist commit := by
  rw [delete_eq, assembled]

theorem commitGraph_advance (holds : contract.Holds journal.store log) (moment : Moment)
    (author : String) (properties : Labels) (current : Graph) :
    Advance allowed journal log
      (written (journal.commitGraph moment author properties current)) := by
  obtain ⟨commit, recorded, metadata, extends_log, -, -⟩ := recording_spec contract holds
    journal.types journal.settings.diffOptions (journal.stamp moment author properties).1 current
  rw [commitGraph_of_recording recorded]
  split
  next empty =>
    simp only [written, empty, if_true]
    exact .stamped moment author properties
  next filled => exact persist_advance metadata extends_log filled

theorem delete_advance (holds : contract.Holds journal.store log) (moment : Moment)
    (author : String) (id : GlobalId) :
    Advance allowed journal log (written (journal.delete moment author id)) := by
  have answered := contract.live?_eq holds id
  cases found : (log.latest? id).filter fun snapshot => !snapshot.isTerminal with
  | none =>
      rw [found] at answered
      rw [delete_of_ended (terminating_of_ended _ answered)]
      exact .stamped moment author .empty
  | some live =>
      rw [found] at answered
      obtain ⟨commit, assembled, metadata, extends_log, -, filled⟩ :=
        terminating_spec contract holds (journal.stamp moment author .empty).1 answered
      rw [delete_of_terminating assembled]
      exact persist_advance metadata extends_log filled

/-- Every operation does what it can do. -/
theorem step_advance (holds : contract.Holds journal.store log) (operation : Operation)
    (permitted : ∀ plan, operation = .reopen plan → allowed plan) :
    Advance allowed journal log (journal.step operation) := by
  cases operation with
  | commit moment author properties heap roots =>
      simp only [step, commit]
      cases journal.capture heap roots with
      | error => exact .idle
      | ok current => exact commitGraph_advance contract holds moment author properties current
  | delete moment author id => exact delete_advance contract holds moment author id
  | deleteObject moment author heap slot =>
      simp only [step, deleteObject]
      cases journal.idOf heap slot with
      | error => exact .idle
      | ok id => exact delete_advance contract holds moment author id
  | reopen plan =>
      simp only [step]
      cases opened : start plan journal.store with
      | error => exact .idle
      | ok next => exact .reopened (permitted plan rfl) opened

end Steps

section Invariants

variable (contract : Store.Contract σ) {allowed : JournalPlan → Prop} {journal : Journal σ}
  {log : CommitLog} {outcome : Option Commit × Journal σ}

/-- The store holds a log in whose histories every snapshot follows the one before, and no number in
it is given out again. -/
structure Recorded (journal : Journal σ) (log : CommitLog) : Prop where
  /-- The store holds the log. -/
  holds : contract.Holds journal.store log
  /-- Snapshots follow one another. -/
  chained : ∀ id, Snapshot.Chained (log.history id)
  /-- Consecutive ids go on behind all ids in the log. -/
  numbering : ∀ last, journal.numbering = .sequential last →
    ∀ commit ∈ log, commit.id.major ≤ last
  /-- Sequence numbers go on behind all in the log. -/
  sequence : ∀ commit ∈ log, commit.metadata.sequence ≤ journal.lastSequence

/-- Ids are consecutive, and newer commits have greater numbers. -/
structure Ordered (journal : Journal σ) (log : CommitLog) : Prop where
  /-- Ids are consecutive. -/
  sequential : ∃ last, journal.numbering = .sequential last
  /-- Newer commits have greater numbers. -/
  precedes : log.Pairwise fun newer older => older.Precedes newer

theorem store_of_start {plan : JournalPlan} {store : σ} {next : Journal σ}
    (opened : start plan store = .ok next) :
    next.store = store ∧
      next.numbering = .startingAfter plan.settings.scheme (Store.head? store) ∧
        next.lastSequence = Store.lastSequence store := by
  unfold start at opened
  split at opened <;> cases opened
  exact ⟨rfl, rfl, rfl⟩

theorem types_of_start {plan : JournalPlan} {store : σ} {next : Journal σ}
    (opened : start plan store = .ok next) :
    TypeTable.ofDefinitions plan.definitions = .ok next.types := by
  unfold start at opened
  split at opened <;> cases opened
  assumption

theorem scheme_of_start {plan : JournalPlan} {store : σ} {next : Journal σ}
    (opened : start plan store = .ok next) : next.numbering.scheme = plan.settings.scheme := by
  rw [(store_of_start opened).2.1]
  cases plan.settings.scheme <;> rfl

/-- A commit that continues the histories keeps them chained. -/
theorem chained_cons {commit : Commit} (extends_log : commit.Extends log)
    (chained : ∀ id, Snapshot.Chained (log.history id)) (id : GlobalId) :
    Snapshot.Chained (CommitLog.history (commit :: log) id) := by
  by_cases touched : id ∈ commit.snapshots.map Snapshot.id
  · obtain ⟨snapshot, member, rfl⟩ := List.mem_map.mp touched
    rw [CommitLog.history_cons_of_mem extends_log.continues.distinct member]
    exact ⟨extends_log.follows snapshot member, chained snapshot.id⟩
  · rw [CommitLog.history_cons_of_notMem touched]
    exact chained id

omit [Store σ] in
theorem numbering_of_stamp {last : Nat} (sequential : journal.numbering = .sequential last)
    (moment : Moment) (author : String) (properties : Labels) :
    (journal.stamp moment author properties).2.numbering = .sequential (last + 1) ∧
      (journal.stamp moment author properties).1.id = ⟨last + 1, 0⟩ := by
  simp only [stamp, sequential, Numbering.next, and_self]

omit [Store σ] in
theorem sequential_of_stamp {last : Nat} (moment : Moment) (author : String) (properties : Labels)
    (stamped : (journal.stamp moment author properties).2.numbering = .sequential last) :
    ∃ before, journal.numbering = .sequential before ∧ last = before + 1 := by
  cases numbering : journal.numbering with
  | sequential before =>
      rw [(numbering_of_stamp numbering moment author properties).1] at stamped
      injection stamped with last_eq
      exact ⟨before, rfl, last_eq.symm⟩
  | random => simp [stamp, numbering, Numbering.next] at stamped

/-- The store goes on to hold the log, with the stored commit in front. -/
theorem Advance.holds (advance : Advance allowed journal log outcome)
    (holds : contract.Holds journal.store log) (fits : ∀ commit ∈ outcome.1, contract.Fits commit) :
    contract.Holds outcome.2.store (outcome.1.toList ++ log) := by
  cases advance with
  | idle => exact holds
  | stamped => exact holds
  | reopened _ opened =>
      rw [(store_of_start opened).1]
      exact holds
  | @stored moment author properties commit store metadata extends_log persisted =>
      have fresh : commit.id ∉ log.map Commit.id := by
        intro taken
        rw [contract.persist_taken holds taken] at persisted
        cases persisted
      obtain ⟨after, persisted', next⟩ :=
        contract.persist_fresh holds extends_log.continues (fits commit rfl) fresh
      rw [persisted', Except.ok.injEq] at persisted
      rw [persisted] at next
      exact next

theorem Advance.recorded (advance : Advance allowed journal log outcome)
    (recorded : Recorded contract journal log) (fits : ∀ commit ∈ outcome.1, contract.Fits commit) :
    Recorded contract outcome.2 (outcome.1.toList ++ log) := by
  have holds := advance.holds contract recorded.holds fits
  cases advance with
  | idle => exact recorded
  | stamped moment author properties =>
      refine ⟨holds, recorded.chained, fun last stamped commit member => ?_,
        fun commit member => (recorded.sequence commit member).trans (Nat.le_succ _)⟩
      obtain ⟨before, sequential, rfl⟩ :=
        sequential_of_stamp moment author properties stamped
      exact (recorded.numbering before sequential commit member).trans (Nat.le_succ before)
  | @reopened plan next _ opened =>
      obtain ⟨-, numbering, sequence⟩ := store_of_start opened
      refine ⟨holds, recorded.chained, fun last sequential commit member => ?_,
        fun commit member => ?_⟩
      · obtain ⟨head, head_eq, below⟩ := contract.le_head recorded.holds member
        rw [numbering, head_eq] at sequential
        cases scheme : plan.settings.scheme with
        | sequential =>
            rw [scheme] at sequential
            injection sequential with last_eq
            rw [← last_eq]
            exact CommitId.major_le_of_isLE below
        | random => simp [scheme, Numbering.startingAfter] at sequential
      · rw [sequence]
        exact contract.le_lastSequence recorded.holds member
  | @stored moment author properties commit store metadata extends_log persisted =>
      refine ⟨holds, chained_cons extends_log recorded.chained, ?_, ?_⟩
      · intro last stamped other member
        obtain ⟨before, sequential, rfl⟩ :=
          sequential_of_stamp moment author properties stamped
        rcases List.mem_cons.mp member with rfl | older
        · rw [Commit.id, metadata, (numbering_of_stamp sequential moment author properties).2]
        · exact (recorded.numbering before sequential other older).trans (Nat.le_succ before)
      · intro other member
        rcases List.mem_cons.mp member with rfl | older
        · rw [metadata]
          exact Nat.le_refl _
        · exact (recorded.sequence other older).trans (Nat.le_succ _)

/-- The numbers that a journal gives out next are not in its log. -/
theorem Recorded.precedes_stamp (recorded : Recorded contract journal log) {last : Nat}
    (sequential : journal.numbering = .sequential last) {moment : Moment} {author : String}
    {properties : Labels} {commit : Commit}
    (metadata : commit.metadata = (journal.stamp moment author properties).1) {older : Commit}
    (member : older ∈ log) : older.Precedes commit where
  ids := by
    have id_eq : commit.id = ⟨last + 1, 0⟩ := by
      rw [Commit.id, metadata, (numbering_of_stamp sequential moment author properties).2]
    rw [id_eq]
    exact CommitId.lt_of_major_lt
      (Nat.lt_succ_of_le (recorded.numbering last sequential older member))
  sequences := by
    rw [metadata]
    exact Nat.lt_succ_of_le (recorded.sequence older member)

theorem Advance.ordered
    (advance : Advance (·.settings.scheme = .sequential) journal log outcome)
    (recorded : Recorded contract journal log) (ordered : Ordered journal log) :
    Ordered outcome.2 (outcome.1.toList ++ log) := by
  obtain ⟨last, sequential⟩ := ordered.sequential
  cases advance with
  | idle => exact ordered
  | stamped moment author properties =>
      exact ⟨⟨_, (numbering_of_stamp sequential moment author properties).1⟩, ordered.precedes⟩
  | reopened permitted opened =>
      obtain ⟨-, numbering, -⟩ := store_of_start opened
      rw [permitted] at numbering
      exact ⟨⟨_, numbering⟩, ordered.precedes⟩
  | @stored moment author properties commit store metadata extends_log persisted =>
      refine ⟨⟨_, (numbering_of_stamp sequential moment author properties).1⟩, ?_⟩
      exact List.pairwise_cons.mpr ⟨fun older member =>
        recorded.precedes_stamp contract sequential metadata member, ordered.precedes⟩

end Invariants

section Runs

theorem reverse_toList {α : Type} (item : Option α) : item.toList.reverse = item.toList := by
  cases item <;> rfl

variable (contract : Store.Contract σ) {journal : Journal σ} {log : CommitLog}

/-- What every operation keeps, of the operations that are left, the journal and the log, a run
keeps to its end. -/
theorem run_induction {motive : List Operation → Journal σ → CommitLog → Prop}
    {fit : Commit → Prop}
    (step : ∀ operation rest journal log, motive (operation :: rest) journal log →
      (∀ commit ∈ (journal.step operation).1, fit commit) →
      motive rest (journal.step operation).2 ((journal.step operation).1.toList ++ log))
    {operations : List Operation} (initial : motive operations journal log)
    (fits : ∀ commit ∈ (journal.run operations).1, fit commit) :
    motive [] (journal.run operations).2 ((journal.run operations).1.reverse ++ log) := by
  induction operations generalizing journal log with
  | nil => exact initial
  | cons operation rest induction =>
      rw [run_cons] at fits ⊢
      have next := step operation rest journal log initial fun commit member =>
        fits commit (List.mem_append_left _ (Option.mem_toList.mpr member))
      have final := induction next fun commit member => fits commit (List.mem_append_right _ member)
      rw [List.reverse_append, reverse_toList, List.append_assoc]
      exact final

/-- Over a whole run, the stored commits make up the log, and its histories stay chained. -/
theorem run_recorded (recorded : Recorded contract journal log) (operations : List Operation)
    (fits : ∀ commit ∈ (journal.run operations).1, contract.Fits commit) :
    Recorded contract (journal.run operations).2 ((journal.run operations).1.reverse ++ log) := by
  refine run_induction (motive := fun _ => Recorded contract) ?_ recorded fits
  intro operation _ journal log recorded fits
  have advance : Advance (fun _ => True) journal log (journal.step operation) :=
    step_advance contract recorded.holds operation fun _ _ => trivial
  exact advance.recorded contract recorded fits

/-- Over a whole run of journals that number one after another, the log stays in the order of its
numbers. -/
theorem run_ordered (recorded : Recorded contract journal log) (ordered : Ordered journal log)
    {operations : List Operation}
    (sequential : ∀ plan, .reopen plan ∈ operations → plan.settings.scheme = .sequential)
    (fits : ∀ commit ∈ (journal.run operations).1, contract.Fits commit) :
    Ordered (journal.run operations).2 ((journal.run operations).1.reverse ++ log) := by
  refine (run_induction (motive := fun left journal log => Recorded contract journal log ∧
    Ordered journal log ∧ ∀ plan, .reopen plan ∈ left → plan.settings.scheme = .sequential)
    ?_ ⟨recorded, ordered, sequential⟩ fits).2.1
  rintro operation rest journal log ⟨recorded, ordered, sequential⟩ fits
  have advance := step_advance contract recorded.holds operation fun plan same =>
    sequential plan (same ▸ List.mem_cons_self)
  exact ⟨advance.recorded contract recorded fits, advance.ordered contract recorded ordered,
    fun plan member => sequential plan (List.mem_cons_of_mem _ member)⟩

/-- A journal that is opened over an empty store has recorded nothing. -/
theorem recorded_of_start {plan : JournalPlan} (opened : start plan contract.empty = .ok journal) :
    Recorded contract journal [] := by
  refine ⟨?_, fun _ => trivial, fun _ _ _ member => (nomatch member),
    fun _ member => (nomatch member)⟩
  rw [(store_of_start opened).1]
  exact contract.holds_empty

theorem ordered_of_start {plan : JournalPlan} {store : σ} (opened : start plan store = .ok journal)
    (sequential : plan.settings.scheme = .sequential) : Ordered journal [] := by
  obtain ⟨-, numbering, -⟩ := store_of_start opened
  rw [sequential] at numbering
  exact ⟨⟨_, numbering⟩, .nil⟩

/-- In every run from an empty store, of journals that number one after another, the histories are
well formed, and commits are stored in the order of their ids and of their sequence numbers. -/
theorem run_wellFormed {plan : JournalPlan} (opened : start plan contract.empty = .ok journal)
    (sequential : plan.settings.scheme = .sequential) {operations : List Operation}
    (reopened : ∀ plan, .reopen plan ∈ operations → plan.settings.scheme = .sequential)
    (fits : ∀ commit ∈ (journal.run operations).1, contract.Fits commit) :
    contract.Holds (journal.run operations).2.store (journal.run operations).1.reverse ∧
      (∀ id, ∃ history, Store.snapshotsOf (journal.run operations).2.store id .all = .ok history ∧
        Snapshot.WellFormed history.reverse) ∧
      (journal.run operations).1.Pairwise Commit.Precedes := by
  have recorded := recorded_of_start contract opened
  have final := run_recorded contract recorded operations fits
  have ordered := (run_ordered contract recorded (ordered_of_start opened sequential) reopened
    fits).precedes
  rw [List.append_nil] at final ordered
  refine ⟨final.holds, fun id => ⟨_, contract.history_eq final.holds id, ?_⟩,
    List.pairwise_reverse.mp ordered⟩
  exact Snapshot.wellFormed_of_chained (final.chained id)

/-- An entity is recorded, ended, recorded again, and changed in a reopened journal; recording it
unchanged stores nothing. -/
theorem run_wellFormed_reborn :
    let user : Definition :=
      .entity ⟨"User", none, [⟨"id", .named "int", true, false⟩,
        ⟨"name", .named "string", false, false⟩], []⟩ none
    let plan : JournalPlan := ⟨[user], {}⟩
    let record (name : String) : Operation :=
      .commit ⟨0, 0⟩ "ann" .empty
        ⟨[.ofList "User" [("id", .scalar (.int 1)), ("name", .scalar (.text name))]]⟩ [0]
    let operations : List Operation :=
      [record "Ada", record "Ada", .delete ⟨1, 0⟩ "ann" (.entity "User" (.int 1)), record "Ada",
        .reopen plan, record "Bob"]
    ∃ journal : Journal MemoryStore, start plan MemoryStore.contract.empty = .ok journal ∧
      plan.settings.scheme = .sequential ∧ (journal.run operations).1.length = 4 ∧
      MemoryStore.contract.Holds (journal.run operations).2.store
        (journal.run operations).1.reverse ∧
      (∀ id, ∃ history, Store.snapshotsOf (journal.run operations).2.store id .all = .ok history ∧
        Snapshot.WellFormed history.reverse) ∧
      (journal.run operations).1.Pairwise Commit.Precedes := by
  intro user plan record operations
  have reopened : ∀ other, Operation.reopen other ∈ operations →
      other.settings.scheme = .sequential := by
    intro other member
    obtain rfl : other = plan := by simpa [operations, record] using member
    rfl
  have sequential : plan.settings.scheme = .sequential := rfl
  refine ⟨_, rfl, sequential, ?_, run_wellFormed MemoryStore.contract
    (show start plan MemoryStore.contract.empty = .ok _ from rfl) sequential reopened
    fun _ _ => trivial⟩
  decide +kernel

end Runs

end Journal
end AuditTrail
