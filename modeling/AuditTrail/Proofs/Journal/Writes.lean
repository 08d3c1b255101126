import AuditTrail.Proofs.Journal.Run

/-!
# What attempts write

Over every store that journals can fill, an attempt to record or to end nodes writes the snapshots
that are due, each in front of the history of its node, and leaves all other histories as they are.
It is refused only if its id is taken, which never happens to a journal whose consecutive ids are
ahead of those in the store.
-/

namespace AuditTrail

variable {σ : Type} [Store σ] (contract : Store.Contract σ)

/-- The stores that operations lead to, by any journals that take turns in any order. -/
inductive Store.Reachable : σ → Prop
  /-- Nothing is stored at first. -/
  | empty : Reachable contract.empty
  /-- A journal over the store carries out an operation. -/
  | step {journal : Journal σ} (reachable : Reachable journal.store) (operation : Journal.Operation)
      (fits : ∀ commit ∈ (journal.step operation).1, contract.Fits commit) :
      Reachable (journal.step operation).2.store

/-- Runs stay within the stores that operations lead to. -/
theorem Store.Reachable.run {contract : Store.Contract σ} {journal : Journal σ}
    (reachable : Store.Reachable contract journal.store) (operations : List Journal.Operation)
    (fits : ∀ commit ∈ (journal.run operations).1, contract.Fits commit) :
    Store.Reachable contract (journal.run operations).2.store := by
  induction operations generalizing journal with
  | nil => exact reachable
  | cons operation rest induction =>
      rw [Journal.run_cons] at fits ⊢
      have next := reachable.step operation fun commit member =>
        fits commit (List.mem_append_left _ (Option.mem_toList.mpr member))
      exact induction next fun commit member => fits commit (List.mem_append_right _ member)

/-- A log in the store has a commit of an id. -/
def Store.Contract.Taken (store : σ) (id : CommitId) : Prop :=
  ∃ log, contract.Holds store log ∧ id ∈ log.map Commit.id

/-- Operations lead from logs to logs. -/
theorem Store.Reachable.holds {contract : Store.Contract σ} {store : σ}
    (reachable : Store.Reachable contract store) : ∃ log, contract.Holds store log := by
  induction reachable with
  | empty => exact ⟨[], contract.holds_empty⟩
  | @step journal reachable operation fits induction =>
      obtain ⟨log, holds⟩ := induction
      have advance : Journal.Advance (fun _ => True) journal log (journal.step operation) :=
        Journal.step_advance contract holds operation fun _ _ => trivial
      exact ⟨_, advance.holds contract holds fits⟩

namespace Journal

open Schema

/-- The consecutive ids of a journal are ahead of those in its store. -/
def Ahead (journal : Journal σ) : Prop :=
  ∃ last, journal.numbering = .sequential last ∧
    ∀ head ∈ Store.head? journal.store, head.major ≤ last

/-- An attempt has written the snapshots that are due, and nothing else. -/
structure Writes (journal : Journal σ) (metadata : CommitMetadata)
    (due : SnapshotKind → Node → Prop) (commit : Commit) (after : Journal σ) : Prop where
  /-- The commit has the numbers that were taken for it. -/
  stamped : commit.metadata = metadata
  /-- There is one snapshot of each node, in the order of the nodes. -/
  increasing : (commit.snapshots.map Snapshot.id).Pairwise fun a b => Ord.compare a b = .lt
  /-- The snapshots are those that are due. -/
  exactly : ∀ kind node,
    (∃ snapshot ∈ commit.snapshots, snapshot.kind = kind ∧ snapshot.node = node) ↔ due kind node
  /-- Each of them stands in front of the history of its node. -/
  continued : ∀ snapshot ∈ commit.snapshots, ∃ history,
    Store.snapshotsOf journal.store snapshot.id .all = .ok history ∧
      Store.snapshotsOf after.store snapshot.id .all = .ok (snapshot :: history)
  /-- All other histories are as before. -/
  untouched : ∀ id ∉ commit.snapshots.map Snapshot.id,
    Store.snapshotsOf after.store id .all = Store.snapshotsOf journal.store id .all

/-- An attempt has been refused because its id is taken. -/
structure Refused (journal : Journal σ) (id : CommitId)
    (outcome : Except AuditError Commit × Journal σ) : Prop where
  /-- The error names the id. -/
  duplicate : outcome.1 = .error (.store (.duplicateCommit id))
  /-- The id is taken. -/
  taken : contract.Taken journal.store id
  /-- The ids of the journal are not ahead. -/
  behind : ¬ journal.Ahead
  /-- The store is as before. -/
  unchanged : outcome.2.store = journal.store

section Attempts

variable {contract} {journal : Journal σ} {log : CommitLog} {commit : Commit}
  {due : SnapshotKind → Node → Prop} {moment : Moment} {author : String} {properties : Labels}

/-- Ids that are ahead are new. -/
theorem not_ahead_of_taken (holds : contract.Holds journal.store log)
    (taken : (journal.stamp moment author properties).1.id ∈ log.map Commit.id) :
    ¬ journal.Ahead := by
  rintro ⟨last, sequential, ahead⟩
  obtain ⟨older, member, same⟩ := List.mem_map.mp taken
  obtain ⟨head, head_eq, below⟩ := contract.le_head holds member
  rw [same, (numbering_of_stamp sequential moment author properties).2] at below
  have le_head : last + 1 ≤ head.major := CommitId.major_le_of_isLE below
  have le_last : head.major ≤ last := ahead head head_eq
  omega

/-- Attempts keep consecutive ids ahead. -/
theorem Advance.ahead {outcome : Option Commit × Journal σ}
    (advance : Advance (fun _ => False) journal log outcome)
    (holds : contract.Holds journal.store log) (fits : ∀ commit ∈ outcome.1, contract.Fits commit)
    (ahead : journal.Ahead) : outcome.2.Ahead := by
  have next := advance.holds contract holds fits
  obtain ⟨last, sequential, below⟩ := ahead
  cases advance with
  | idle => exact ⟨last, sequential, below⟩
  | stamped moment author properties =>
      exact ⟨last + 1, (numbering_of_stamp sequential moment author properties).1,
        fun head found => (below head found).trans (Nat.le_succ last)⟩
  | reopened permitted => exact permitted.elim
  | @stored moment author properties commit store metadata extends_log persisted =>
      obtain ⟨numbered, id_eq⟩ := numbering_of_stamp sequential moment author properties
      refine ⟨last + 1, numbered, fun head found => ?_⟩
      rcases List.mem_cons.mp (contract.head_mem next found) with rfl | older
      · rw [Commit.id, metadata, id_eq]
      · obtain ⟨commit, member, rfl⟩ := List.mem_map.mp older
        obtain ⟨highest, highest_eq, le_highest⟩ := contract.le_head holds member
        have le_major := CommitId.major_le_of_isLE le_highest
        have le_last := below highest highest_eq
        omega

/-- A journal that goes on behind all ids in its log is ahead of its store. -/
theorem Recorded.ahead (recorded : Recorded contract journal log) {last : Nat}
    (sequential : journal.numbering = .sequential last) : journal.Ahead := by
  refine ⟨last, sequential, fun head found => ?_⟩
  obtain ⟨commit, member, rfl⟩ := List.mem_map.mp (contract.head_mem recorded.holds found)
  exact recorded.numbering last sequential commit member

/-- In a run from an empty store, of journals that number one after another, nothing is refused. -/
theorem run_ahead {plan : JournalPlan} (opened : start plan contract.empty = .ok journal)
    (sequential : plan.settings.scheme = .sequential) {operations : List Operation}
    (reopened : ∀ plan, .reopen plan ∈ operations → plan.settings.scheme = .sequential)
    (fits : ∀ commit ∈ (journal.run operations).1, contract.Fits commit) :
    (journal.run operations).2.Ahead := by
  have recorded := recorded_of_start contract opened
  obtain ⟨last, numbered⟩ := (run_ordered contract recorded (ordered_of_start opened sequential)
    reopened fits).sequential
  exact (run_recorded contract recorded operations fits).ahead numbered

/-- An empty commit writes nothing. -/
theorem writes_of_isEmpty {metadata : CommitMetadata} {after : Journal σ} (empty : commit.isEmpty)
    (stamped : commit.metadata = metadata) (extends_log : commit.Extends log)
    (exactly : ∀ kind node,
      (∃ snapshot ∈ commit.snapshots, snapshot.kind = kind ∧ snapshot.node = node) ↔ due kind node)
    (unchanged : after.store = journal.store) : Writes journal metadata due commit after where
  stamped := stamped
  increasing := extends_log.increasing
  exactly := exactly
  continued snapshot member := by
    rw [Commit.isEmpty, List.isEmpty_iff] at empty
    rw [empty] at member
    cases member
  untouched id _ := by rw [unchanged]

/-- Storing an assembled commit writes its snapshots unless its id is taken. -/
theorem persist_writes (holds : contract.Holds journal.store log)
    (stamped : commit.metadata = (journal.stamp moment author properties).1)
    (extends_log : commit.Extends log)
    (exactly : ∀ kind node,
      (∃ snapshot ∈ commit.snapshots, snapshot.kind = kind ∧ snapshot.node = node) ↔ due kind node)
    (fits : contract.Fits commit) :
    (∃ after, (journal.stamp moment author properties).2.persist commit = (.ok commit, after) ∧
        Writes journal (journal.stamp moment author properties).1 due commit after) ∨
      Refused contract journal (journal.stamp moment author properties).1.id
        ((journal.stamp moment author properties).2.persist commit) := by
  have id_eq : commit.id = (journal.stamp moment author properties).1.id := by
    rw [Commit.id, stamped]
  have same_store : (journal.stamp moment author properties).2.store = journal.store := rfl
  rw [persist, same_store]
  by_cases taken : commit.id ∈ log.map Commit.id
  · rw [contract.persist_taken holds taken]
    rw [id_eq] at taken ⊢
    exact .inr ⟨rfl, ⟨log, holds, taken⟩, not_ahead_of_taken holds taken, rfl⟩
  · obtain ⟨after, persisted, next⟩ :=
      contract.persist_fresh holds extends_log.continues fits taken
    rw [persisted]
    refine .inl ⟨_, rfl, stamped, extends_log.increasing, exactly, fun snapshot member => ?_,
      fun id absent => ?_⟩
    · refine ⟨log.history snapshot.id, contract.history_eq holds _, ?_⟩
      rw [contract.history_eq next,
        CommitLog.history_cons_of_mem extends_log.continues.distinct member]
    · rw [contract.history_eq next, contract.history_eq holds,
        CommitLog.history_cons_of_notMem absent]

/-- An attempt to record a captured graph writes what is due for it, unless its id is taken. -/
theorem commitGraph_writes (holds : contract.Holds journal.store log) (current : Graph)
    (fits : ∀ commit, Commit.recording journal.types journal.settings.diffOptions journal.store
      (journal.stamp moment author properties).1 current = .ok commit → contract.Fits commit) :
    (∃ commit after, journal.commitGraph moment author properties current = (.ok commit, after) ∧
        Writes journal (journal.stamp moment author properties).1
          (Commit.Due journal.types journal.settings.alignment journal.store current) commit after ∧
        (commit.isEmpty ↔ commit.diff.isEmpty)) ∨
      Refused contract journal (journal.stamp moment author properties).1.id
        (journal.commitGraph moment author properties current) := by
  obtain ⟨commit, recorded, stamped, extends_log, exactly, empty_iff⟩ := recording_spec contract
    holds journal.types journal.settings.diffOptions (journal.stamp moment author properties).1
    current
  rw [commitGraph_of_recording recorded]
  by_cases empty : commit.isEmpty
  · rw [if_pos empty]
    exact .inl ⟨commit, _, rfl, writes_of_isEmpty empty stamped extends_log exactly rfl, empty_iff⟩
  · rw [if_neg empty]
    rcases persist_writes holds stamped extends_log exactly (fits commit recorded) with
      ⟨after, stored, writes⟩ | refused
    · exact .inl ⟨commit, after, stored, writes, empty_iff⟩
    · exact .inr refused

/-- An attempt to end a live node writes what is due then, unless its id is taken. -/
theorem delete_writes (holds : contract.Holds journal.store log) {id : GlobalId} {live : Snapshot}
    (found : Store.live? journal.store id .latest = .ok (some live))
    (fits : ∀ commit, Commit.terminating journal.store (journal.stamp moment author .empty).1 id =
      .ok (some commit) → contract.Fits commit) :
    (∃ commit after, journal.delete moment author id = (.ok commit, after) ∧
        Writes journal (journal.stamp moment author .empty).1
          (Commit.DueAtEnd journal.store id) commit after) ∨
      Refused contract journal (journal.stamp moment author .empty).1.id
        (journal.delete moment author id) := by
  obtain ⟨commit, assembled, stamped, extends_log, exactly, -⟩ :=
    terminating_spec contract holds (journal.stamp moment author .empty).1 found
  rw [delete_of_terminating assembled]
  rcases persist_writes holds stamped extends_log exactly (fits commit assembled) with
    ⟨after, stored, writes⟩ | refused
  · exact .inl ⟨commit, after, stored, writes⟩
  · exact .inr refused

end Attempts

/-- Value objects go away when they are dropped, but no recording ends an entity. -/
theorem isValueObject_of_due {types : TypeTable} {alignment : Alignment} {store : σ}
    {current : Graph} {node : Node}
    (due : Commit.Due types alignment store current .terminal node) :
    node.id.isValueObject := by
  cases due with
  | terminal _ valueObject => exact valueObject

/-- Over every store that journals can fill, recording and ending nodes write exactly the snapshots
that are due, and are refused only if their id is taken. -/
theorem writes_due {journal : Journal σ} (reachable : Store.Reachable contract journal.store)
    (moment : Moment) (author : String) :
    (∀ properties heap roots current, journal.capture heap roots = .ok current →
      (∀ commit, Commit.recording journal.types journal.settings.diffOptions journal.store
        (journal.stamp moment author properties).1 current = .ok commit → contract.Fits commit) →
      (∃ commit after, journal.commit moment author properties heap roots = (.ok commit, after) ∧
          Writes journal (journal.stamp moment author properties).1
            (Commit.Due journal.types journal.settings.alignment journal.store current)
            commit after ∧
          (∀ snapshot ∈ commit.snapshots, snapshot.kind = .terminal → snapshot.id.isValueObject) ∧
          (commit.isEmpty ↔ commit.diff.isEmpty)) ∨
        Refused contract journal (journal.stamp moment author properties).1.id
          (journal.commit moment author properties heap roots)) ∧
    (∀ id live, Store.live? journal.store id .latest = .ok (some live) →
      (∀ commit, Commit.terminating journal.store (journal.stamp moment author .empty).1 id =
        .ok (some commit) → contract.Fits commit) →
      (∃ commit after, journal.delete moment author id = (.ok commit, after) ∧
          Writes journal (journal.stamp moment author .empty).1
            (Commit.DueAtEnd journal.store id) commit after) ∨
        Refused contract journal (journal.stamp moment author .empty).1.id
          (journal.delete moment author id)) ∧
    ∀ id, Store.live? journal.store id .latest = .ok none →
      ∃ after, journal.delete moment author id = (.error (.notFound id), after) ∧
        after.store = journal.store := by
  obtain ⟨log, holds⟩ := reachable.holds
  refine ⟨fun properties heap roots current captured fits => ?_,
    fun id live found fits => delete_writes holds found fits, fun id ended => ?_⟩
  · rw [show journal.commit moment author properties heap roots =
      journal.commitGraph moment author properties current by rw [Journal.commit, captured]]
    rcases commitGraph_writes holds current fits with
      ⟨commit, after, recorded, writes, empty_iff⟩ | refused
    · refine .inl ⟨commit, after, recorded, writes, fun snapshot member ended => ?_, empty_iff⟩
      have due := (writes.exactly snapshot.kind snapshot.node).mp ⟨snapshot, member, rfl, rfl⟩
      rw [ended] at due
      exact isValueObject_of_due due
    · exact .inr refused
  · exact ⟨_, delete_of_ended (terminating_of_ended _ ended), rfl⟩

/-- An entity is changed and drops its address, and another one comes into being. -/
theorem writes_due_dropped :
    let user : Definition :=
      .entity ⟨"User", none, [⟨"id", .named "int", true, false⟩,
        ⟨"home", .named "Address", false, false⟩], []⟩ none
    let address : Definition :=
      .valueObject ⟨"Address", none, [⟨"street", .named "string", false, false⟩], []⟩
    let plan : JournalPlan := ⟨[user, address], {}⟩
    let housed : Heap :=
      ⟨[.ofList "User" [("id", .scalar (.int 1)), ("home", .ref 1)],
        .ofList "Address" [("street", .scalar (.text "Main"))]]⟩
    let homeless : Heap :=
      ⟨[.ofList "User" [("id", .scalar (.int 1))], .ofList "User" [("id", .scalar (.int 2))]]⟩
    ∃ first, start plan MemoryStore.contract.empty = .ok first ∧
      let journal := (first.run [.commit ⟨0, 0⟩ "ann" .empty housed [0]]).2
      Store.Reachable MemoryStore.contract journal.store ∧
      ∃ current, journal.capture homeless [0, 1] = .ok current ∧
      ∃ commit after, journal.commit ⟨1, 0⟩ "ann" .empty homeless [0, 1] = (.ok commit, after) ∧
        Writes journal (journal.stamp ⟨1, 0⟩ "ann" .empty).1
          (Commit.Due journal.types journal.settings.alignment journal.store current)
          commit after ∧
        commit.snapshots.map (·.kind) = [.update, .terminal, .initial] := by
  intro user address plan housed homeless
  refine ⟨_, rfl, ?_⟩
  intro journal
  have reachable : Store.Reachable MemoryStore.contract journal.store :=
    Store.Reachable.run .empty _ fun _ _ => trivial
  have kinds : (journal.commit ⟨1, 0⟩ "ann" .empty homeless [0, 1]).1.toOption.map
      (fun commit => commit.snapshots.map (·.kind)) = some [.update, .terminal, .initial] := by
    decide +kernel
  have captures : (journal.capture homeless [0, 1]).toOption.isSome := by decide +kernel
  obtain ⟨current, captured⟩ : ∃ current, journal.capture homeless [0, 1] = .ok current := by
    cases found : journal.capture homeless [0, 1] with
    | error => rw [found] at captures; cases captures
    | ok current => exact ⟨current, rfl⟩
  refine ⟨reachable, current, captured, ?_⟩
  rcases (writes_due MemoryStore.contract reachable ⟨1, 0⟩ "ann").1 .empty homeless [0, 1] current
    captured fun _ _ => trivial with ⟨commit, after, recorded, writes, -⟩ | refused
  · rw [recorded] at kinds
    exact ⟨commit, after, recorded, writes, Option.some.inj kinds⟩
  · rw [refused.duplicate] at kinds
    cases kinds

end Journal
end AuditTrail
