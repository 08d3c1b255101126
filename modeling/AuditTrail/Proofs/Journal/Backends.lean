import AuditTrail.Proofs.Except
import AuditTrail.Proofs.Journal.Run
import AuditTrail.Proofs.Store.Agreement

/-!
# Journals over either store

A journal over the store in rows gives the same answers as one over the store in memory, as long as
all numbers fit into the columns and what is stored can be read back.  Both journals take the same
numbers and hold the same log, so that the stores agree before each request.
-/

namespace AuditTrail

open Schema

namespace Journal

/-- A request to a journal. -/
inductive Request where
  /-- Record the current state of the objects that the roots lead to. -/
  | commit (moment : Moment) (author : String) (properties : Labels) (heap : Heap)
    (roots : List Slot)
  /-- End a node together with the value objects it reaches. -/
  | delete (moment : Moment) (author : String) (id : GlobalId)
  /-- End the node of a live object together with the value objects it reaches. -/
  | deleteObject (moment : Moment) (author : String) (heap : Heap) (slot : Slot)
  /-- Find the snapshots of a node that match a query. -/
  | snapshotsOf (id : GlobalId) (query : Query)
  /-- Find the newest snapshot of a node. -/
  | latest (id : GlobalId)
  /-- Rebuild a node at a point in history. -/
  | shadow (id : GlobalId) (selector : VersionSelector) (scope : ShadowScope)

/-- The numbers of a request fit into the columns. -/
def Request.Fits : Request → Prop
  | .snapshotsOf _ query => query.Fits
  | .shadow _ selector _ => selector.Fits
  | .commit .. | .delete .. | .deleteObject .. | .latest _ => True

instance : DecidablePred Request.Fits
  | .snapshotsOf _ query => inferInstanceAs (Decidable query.Fits)
  | .shadow _ selector _ => inferInstanceAs (Decidable selector.Fits)
  | .commit .. | .delete .. | .deleteObject .. | .latest _ => inferInstanceAs (Decidable True)

/-- What a request is answered with. -/
inductive Response where
  /-- The commit of an attempt to record or to end nodes. -/
  | commit (outcome : Except AuditError Commit)
  /-- The snapshots that a query matches. -/
  | snapshots (found : Except AuditError (List Snapshot))
  /-- The newest snapshot of a node. -/
  | latest (found : Except AuditError (Option Snapshot))
  /-- The objects of a point in history. -/
  | shadow (rebuilt : Except AuditError Shadow)

/-- The commit that was stored before the answer was given. -/
def Response.stored? : Response → Option Commit
  | .commit (.ok recorded) => if recorded.isEmpty then none else some recorded
  | _ => none

section Sessions

variable {σ : Type} [Store σ]

/-- Answer a request. -/
def answer (journal : Journal σ) : Request → Response × Journal σ
  | .commit moment author properties heap roots =>
    let (outcome, journal) := journal.commit moment author properties heap roots
    (.commit outcome, journal)
  | .delete moment author id =>
    let (outcome, journal) := journal.delete moment author id
    (.commit outcome, journal)
  | .deleteObject moment author heap slot =>
    let (outcome, journal) := journal.deleteObject moment author heap slot
    (.commit outcome, journal)
  | .snapshotsOf id query => (.snapshots (journal.snapshotsOf id query), journal)
  | .latest id => (.latest (journal.latest? id), journal)
  | .shadow id selector scope => (.shadow (journal.shadow id selector scope), journal)

/-- Answer requests in order. -/
def answers (journal : Journal σ) : List Request → List Response
  | [] => []
  | request :: rest =>
    let (response, journal) := journal.answer request
    response :: journal.answers rest

/-- The journal after it has answered requests in order. -/
def after (journal : Journal σ) (requests : List Request) : Journal σ :=
  requests.foldl (fun journal request => (journal.answer request).2) journal

/-- Open a journal over a store and answer requests in order. -/
def session (plan : JournalPlan) (store : σ) (requests : List Request) :
    Except AuditError (List Response) := do
  let journal ← start plan store
  .ok (journal.answers requests)

end Sessions

/-- The numbers of a commit fit into the columns, and what is stored of it can be read back. -/
structure Storable (commit : Commit) : Prop where
  /-- The leading number of the id fits. -/
  major : commit.id.major < 2 ^ 63
  /-- The time fits. -/
  timestamp : commit.metadata.timestamp < 2 ^ 63
  /-- The sequence number fits. -/
  sequence : commit.metadata.sequence < 2 ^ 63
  /-- The metadata are read as they were written. -/
  metadata : Payload.decode "commit" CommitMetadata.decode?
    (Payload.encode "commit" commit.metadata.encode) = .ok commit.metadata
  /-- The snapshots are read as they were written. -/
  snapshots : ∀ snapshot ∈ commit.snapshots,
    Payload.decode "snapshot" Snapshot.decode? (Payload.encode "snapshot" snapshot.encode) =
      .ok snapshot

/-- A commit can be stored if its numbers are small and its snapshots are not nested too deeply. -/
theorem storable_of_fitsIn {commit : Commit}
    (numbers : commit.id.major < 2 ^ 63 ∧ commit.id.minor < 2 ^ 32 ∧
      commit.metadata.timestamp < 2 ^ 63 ∧ commit.metadata.sequence < 2 ^ 63)
    (nested : ∀ snapshot ∈ commit.snapshots, snapshot.FitsIn (Codec.nestingLimit - 1)) :
    Storable commit where
  major := numbers.1
  timestamp := numbers.2.2.1
  sequence := numbers.2.2.2
  metadata := by
    obtain ⟨major, minor, timestamp, sequence⟩ := numbers
    have fits : commit.metadata.Fits :=
      ⟨⟨Nat.lt_trans major (by decide), minor⟩, by omega, by omega⟩
    exact Payload.decode_encode (by decide) (CommitMetadata.readsAs_encode fits)
      (commit.metadata.depth_encode.le.trans (by decide))
  snapshots snapshot member := by
    obtain ⟨reads, deep⟩ := Snapshot.readsAs_of_fitsIn (nested snapshot member)
    exact Payload.decode_encode (by decide) reads deep

/-- Two journals that have answered the same requests over the same log. -/
structure Twins (memory : Journal MemoryStore) (rows : Journal RowStore) (log : CommitLog) :
    Prop where
  /-- They have the same settings. -/
  settings : rows.settings = memory.settings
  /-- They have the same types. -/
  types : rows.types = memory.types
  /-- The next ids are the same. -/
  numbering : rows.numbering = memory.numbering
  /-- The next sequence numbers are the same. -/
  lastSequence : rows.lastSequence = memory.lastSequence
  /-- The store in memory holds the log. -/
  holds : memory.store.Holds log
  /-- The store in rows holds the log. -/
  rows_holds : rows.store.Holds log
  /-- The log can be searched by its numbers. -/
  filed : log.Filed
  /-- Snapshots follow one another. -/
  chained : ∀ id, Snapshot.Chained (log.history id)
  /-- Every snapshot of a node has taken a sequence number. -/
  short : ∀ id, (log.history id).length ≤ memory.lastSequence

namespace Twins

variable {memory : Journal MemoryStore} {rows : Journal RowStore} {log : CommitLog}
  (twins : Twins memory rows log)

include twins

theorem agree : Store.Agree memory.store rows.store :=
  agree_of_holds twins.holds twins.rows_holds twins.filed

theorem capture_eq (heap : Heap) (roots : List Slot) :
    rows.capture heap roots = memory.capture heap roots := by
  rw [capture, capture, twins.types]

theorem idOf_eq (heap : Heap) (slot : Slot) : rows.idOf heap slot = memory.idOf heap slot := by
  rw [idOf, idOf, twins.types]

variable (moment : Moment) (author : String) (properties : Labels)

/-- Both give a commit the same metadata. -/
theorem stamp_fst : (rows.stamp moment author properties).1 =
    (memory.stamp moment author properties).1 := by
  simp only [stamp, twins.numbering, twins.lastSequence]

/-- Taking numbers keeps them twins. -/
theorem stamp_snd :
    Twins (memory.stamp moment author properties).2 (rows.stamp moment author properties).2
      log where
  settings := twins.settings
  types := twins.types
  numbering := by simp only [stamp, twins.numbering]
  lastSequence := by simp only [stamp, twins.lastSequence]
  holds := twins.holds
  rows_holds := twins.rows_holds
  filed := twins.filed
  chained := twins.chained
  short id := (twins.short id).trans (Nat.le_succ _)

omit twins in
theorem minor_stamp : (memory.stamp moment author properties).1.id.minor = 0 := by
  unfold stamp Numbering.next
  cases memory.numbering <;> rfl

/-- A commit that can be stored fits into the rows. -/
theorem fits {commit : Commit}
    (metadata : commit.metadata = (memory.stamp moment author properties).1)
    (extends_log : commit.Extends log) (storable : Storable commit) : RowStore.Fits commit where
  major := storable.major
  minor := by
    rw [Commit.id, metadata, minor_stamp]
    decide
  sequence := storable.sequence
  version snapshot member := by
    -- Versions are behind the number of snapshots before, and each of these has a sequence number.
    have behind := (extends_log.follows snapshot member).version
    have count : log.version snapshot.id = (log.history snapshot.id).length :=
      Snapshot.version_of_chained (twins.chained snapshot.id)
    have short := twins.short snapshot.id
    have sequence : commit.metadata.sequence = memory.lastSequence + 1 := by
      rw [metadata]
      rfl
    have small := storable.sequence
    rw [CommitLog.version] at count
    omega
  readable := storable.snapshots

/-- Twins that store the same commit stay twins. -/
theorem stored {commit : Commit} {after : MemoryStore} {rows_after : RowStore}
    (extends_log : commit.Extends log) (storable : Storable commit)
    (fresh : commit.id ∉ log.map Commit.id) (holds : after.Holds (commit :: log))
    (rows_holds : rows_after.Holds (commit :: log)) :
    Twins { (memory.stamp moment author properties).2 with store := after }
      { (rows.stamp moment author properties).2 with store := rows_after } (commit :: log) where
  settings := twins.settings
  types := twins.types
  numbering := (twins.stamp_snd moment author properties).numbering
  lastSequence := (twins.stamp_snd moment author properties).lastSequence
  holds := holds
  rows_holds := rows_holds
  filed :=
    { distinct := List.nodup_cons.mpr ⟨fresh, twins.filed.distinct⟩
      stamped := List.forall_mem_cons.mpr ⟨extends_log.stamped, twins.filed.stamped⟩
      timestamp := List.forall_mem_cons.mpr ⟨storable.timestamp, twins.filed.timestamp⟩
      readable := List.forall_mem_cons.mpr ⟨storable.metadata, twins.filed.readable⟩ }
  chained := chained_cons extends_log twins.chained
  short id := by
    have before := twins.short id
    have next : (memory.stamp moment author properties).2.lastSequence = memory.lastSequence + 1 :=
      rfl
    rw [next]
    by_cases touched : id ∈ commit.snapshots.map Snapshot.id
    · obtain ⟨snapshot, member, rfl⟩ := List.mem_map.mp touched
      rw [CommitLog.history_cons_of_mem extends_log.continues.distinct member, List.length_cons]
      omega
    · rw [CommitLog.history_cons_of_notMem touched]
      omega

end Twins

/-- Two journals answer the same and stay twins. -/
def Alike {α : Type} (outcome : α × Journal MemoryStore) (other : α × Journal RowStore) : Prop :=
  other.1 = outcome.1 ∧ ∃ log, Twins outcome.2 other.2 log

theorem Alike.map {α β : Type} {outcome : α × Journal MemoryStore} {other : α × Journal RowStore}
    (alike : Alike outcome other) (wrap : α → β) :
    Alike (wrap outcome.1, outcome.2) (wrap other.1, other.2) :=
  ⟨congrArg wrap alike.1, alike.2⟩

theorem stored?_of_ok {outcome : Except AuditError Commit} {commit : Commit}
    (answered : outcome = .ok commit) (filled : ¬ commit.isEmpty) :
    (Response.commit outcome).stored? = some commit := by
  simp only [answered, Response.stored?, filled, Bool.false_eq_true, if_false]

namespace Twins

variable {memory : Journal MemoryStore} {rows : Journal RowStore} {log : CommitLog}
  (twins : Twins memory rows log)

include twins

theorem alike {α : Type} (answer : α) : Alike (answer, memory) (answer, rows) :=
  ⟨rfl, log, twins⟩

variable (moment : Moment) (author : String) (properties : Labels)

/-- An assembled commit is stored by both or refused by both. -/
theorem persist_alike {commit : Commit}
    (metadata : commit.metadata = (memory.stamp moment author properties).1)
    (extends_log : commit.Extends log)
    (storable : ((memory.stamp moment author properties).2.persist commit).1 = .ok commit →
      Storable commit) :
    Alike ((memory.stamp moment author properties).2.persist commit)
      ((rows.stamp moment author properties).2.persist commit) := by
  have same_store : (memory.stamp moment author properties).2.store = memory.store := rfl
  have same_rows : (rows.stamp moment author properties).2.store = rows.store := rfl
  rw [persist, same_store] at storable ⊢
  rw [persist, same_rows]
  by_cases taken : commit.id ∈ log.map Commit.id
  · have refused : Store.persist memory.store commit = .error (.duplicateCommit commit.id) :=
      twins.holds.persist_taken taken
    have rows_refused : Store.persist rows.store commit = .error (.duplicateCommit commit.id) :=
      twins.rows_holds.persist_taken taken
    rw [refused, rows_refused]
    exact (twins.stamp_snd moment author properties).alike _
  · obtain ⟨after, persisted, holds⟩ := twins.holds.persist extends_log.continues taken
    have persisted : Store.persist memory.store commit = .ok after := persisted
    rw [persisted] at storable ⊢
    have storable := storable rfl
    obtain ⟨rows_after, rows_persisted, rows_holds⟩ :=
      twins.rows_holds.persist SnapshotRow.keyOf_injective extends_log.continues
        (twins.fits moment author properties metadata extends_log storable) taken
    have rows_persisted : Store.persist rows.store commit = .ok rows_after := rows_persisted
    rw [rows_persisted]
    exact (twins.stored moment author properties extends_log storable taken holds
      rows_holds).alike _

/-- An attempt to record is answered alike. -/
theorem commitGraph_alike (current : Graph)
    (storable : ∀ commit,
      (memory.commitGraph moment author properties current).1 = .ok commit → ¬ commit.isEmpty →
        Storable commit) :
    Alike (memory.commitGraph moment author properties current)
      (rows.commitGraph moment author properties current) := by
  obtain ⟨commit, recorded, metadata, extends_log, -, -⟩ :=
    recording_spec MemoryStore.contract twins.holds memory.types memory.settings.diffOptions
      (memory.stamp moment author properties).1 current
  have rows_recorded : Commit.recording rows.types rows.settings.diffOptions rows.store
      (rows.stamp moment author properties).1 current = .ok commit := by
    rw [twins.types, twins.settings, twins.stamp_fst, twins.agree.recording_eq, recorded]
  rw [commitGraph_of_recording recorded] at storable ⊢
  rw [commitGraph_of_recording rows_recorded]
  split_ifs with empty
  · exact (twins.stamp_snd moment author properties).alike _
  · refine twins.persist_alike moment author properties metadata extends_log fun answered => ?_
    rw [if_neg empty] at storable
    exact storable commit answered empty

/-- An attempt to end a node is answered alike. -/
theorem delete_alike (id : GlobalId)
    (storable : ∀ commit, (memory.delete moment author id).1 = .ok commit → ¬ commit.isEmpty →
      Storable commit) :
    Alike (memory.delete moment author id) (rows.delete moment author id) := by
  have rows_assembled : Commit.terminating rows.store (rows.stamp moment author .empty).1 id =
      Commit.terminating memory.store (memory.stamp moment author .empty).1 id := by
    rw [twins.stamp_fst, twins.agree.terminating_eq]
  have answered := MemoryStore.contract.live?_eq twins.holds id
  cases found : (log.latest? id).filter fun snapshot => !snapshot.isTerminal with
  | none =>
      rw [found] at answered
      have ended := terminating_of_ended (memory.stamp moment author .empty).1 answered
      rw [ended] at rows_assembled
      rw [delete_of_ended ended, delete_of_ended rows_assembled]
      exact (twins.stamp_snd moment author .empty).alike _
  | some live =>
      rw [found] at answered
      obtain ⟨commit, assembled, metadata, extends_log, -, filled⟩ :=
        terminating_spec MemoryStore.contract twins.holds (memory.stamp moment author .empty).1
          answered
      rw [assembled] at rows_assembled
      rw [delete_of_terminating assembled] at storable ⊢
      rw [delete_of_terminating rows_assembled]
      exact twins.persist_alike moment author .empty metadata extends_log fun answered =>
        storable commit answered filled

/-- Every request is answered alike. -/
theorem answer_alike {request : Request} (fits : request.Fits)
    (storable : ∀ commit ∈ (memory.answer request).1.stored?, Storable commit) :
    Alike (memory.answer request) (rows.answer request) := by
  cases request with
  | commit moment author properties heap roots =>
      have stored (commit : Commit)
          (answered : (memory.commit moment author properties heap roots).1 = .ok commit)
          (filled : ¬ commit.isEmpty) : Storable commit :=
        storable commit (stored?_of_ok answered filled)
      suffices attempt : Alike (memory.commit moment author properties heap roots)
          (rows.commit moment author properties heap roots) from attempt.map Response.commit
      simp only [Journal.commit, twins.capture_eq] at stored ⊢
      cases captured : memory.capture heap roots with
      | error error => exact twins.alike _
      | ok current =>
          simp only [captured] at stored
          exact twins.commitGraph_alike moment author properties current stored
  | delete moment author id =>
      refine (twins.delete_alike moment author id fun commit answered filled => ?_).map
        Response.commit
      exact storable commit (stored?_of_ok answered filled)
  | deleteObject moment author heap slot =>
      have stored (commit : Commit)
          (answered : (memory.deleteObject moment author heap slot).1 = .ok commit)
          (filled : ¬ commit.isEmpty) : Storable commit :=
        storable commit (stored?_of_ok answered filled)
      suffices attempt : Alike (memory.deleteObject moment author heap slot)
          (rows.deleteObject moment author heap slot) from attempt.map Response.commit
      simp only [deleteObject, twins.idOf_eq] at stored ⊢
      cases named : memory.idOf heap slot with
      | error error => exact twins.alike _
      | ok id =>
          simp only [named] at stored
          exact twins.delete_alike moment author id stored
  | snapshotsOf id query =>
      have same : rows.snapshotsOf id query = memory.snapshotsOf id query := by
        rw [snapshotsOf, snapshotsOf, twins.agree.snapshotsOf id query fits]
      exact ⟨congrArg Response.snapshots same, log, twins⟩
  | latest id =>
      have same : rows.latest? id = memory.latest? id := by
        rw [latest?, latest?, twins.agree.latest?_eq]
      exact ⟨congrArg Response.latest same, log, twins⟩
  | shadow id selector scope =>
      have same : rows.shadow id selector scope = memory.shadow id selector scope := by
        rw [shadow, shadow, twins.types, twins.numbering, twins.agree.shadow_eq _ _ _ fits]
      exact ⟨congrArg Response.shadow same, log, twins⟩

/-- Requests in order are answered alike. -/
theorem answers_eq {requests : List Request} (fits : ∀ request ∈ requests, request.Fits)
    (storable : ∀ response ∈ memory.answers requests, ∀ commit ∈ response.stored?,
      Storable commit) : rows.answers requests = memory.answers requests := by
  induction requests generalizing memory rows log with
  | nil => rfl
  | cons request rest induction =>
      obtain ⟨request_fits, rest_fit⟩ := List.forall_mem_cons.mp fits
      obtain ⟨first, later⟩ := List.forall_mem_cons.mp storable
      obtain ⟨same, next, next_twins⟩ := twins.answer_alike request_fits first
      exact congrArg₂ List.cons same (induction next_twins rest_fit later)

end Twins

/-- Journals are opened as twins over stores without commits, or cannot be opened over either. -/
theorem start_twins (plan : JournalPlan) :
    (∃ error, start plan MemoryStore.empty = .error error ∧
        start plan RowStore.empty = .error error) ∨
      ∃ memory rows, start plan MemoryStore.empty = .ok memory ∧
        start plan RowStore.empty = .ok rows ∧ Twins memory rows [] := by
  unfold start
  cases TypeTable.ofDefinitions plan.definitions with
  | error error => exact .inl ⟨_, rfl, rfl⟩
  | ok types =>
      refine .inr ⟨_, _, rfl, rfl, ?_⟩
      exact
        { settings := rfl
          types := rfl
          numbering := rfl
          lastSequence := rfl
          holds := MemoryStore.contract.holds_empty
          rows_holds := (RowStore.contract SnapshotRow.keyOf_injective).holds_empty
          filed := .nil
          chained := fun _ => trivial
          short := fun _ => Nat.zero_le _ }

/-- A session over the store in rows goes as one over the store in memory, whatever is asked, as
long as the numbers fit into the columns and what is stored can be read back. -/
theorem session_eq (plan : JournalPlan) {requests : List Request}
    (fits : ∀ request ∈ requests, request.Fits)
    (storable : ∀ responses, session plan MemoryStore.empty requests = .ok responses →
      ∀ response ∈ responses, ∀ commit ∈ response.stored?, Storable commit) :
    session plan RowStore.empty requests = session plan MemoryStore.empty requests := by
  unfold session at storable ⊢
  rcases start_twins plan with ⟨error, failed, rows_failed⟩ |
    ⟨memory, rows, opened, rows_opened, twins⟩
  · rw [failed, rows_failed]
    rfl
  · rw [opened] at storable ⊢
    rw [rows_opened]
    exact congrArg Except.ok (twins.answers_eq fits (storable _ rfl))

/-- A user is recorded, changed, ended and recorded again, and asked for in between: up to a time,
up to a commit, and as a shadow of the first life. -/
theorem session_eq_reborn :
    let user : Definition :=
      .entity ⟨"User", none, [⟨"id", .named "int", true, false⟩,
        ⟨"name", .named "string", false, false⟩], []⟩ none
    let plan : JournalPlan := ⟨[user], {}⟩
    let id : GlobalId := .entity "User" (.int 1)
    let record (now : Nat) (name : String) : Request :=
      .commit ⟨now, 0⟩ "ann" .empty
        ⟨[.ofList "User" [("id", .scalar (.int 1)), ("name", .scalar (.text name))]]⟩ [0]
    let requests : List Request :=
      [record 5 "Ada", record 7 "Bea", .delete ⟨8, 0⟩ "ann" id, .delete ⟨8, 0⟩ "ann" id,
        record 9 "Ada", .snapshotsOf id ⟨some (.time 8), some 2⟩,
        .snapshotsOf id ⟨some (.commit ⟨2, 0⟩ 7 2 .random), none⟩, .latest id,
        .shadow id (.commit ⟨1, 0⟩) .deep, .shadow id (.time 8) .shallow]
    (∀ request ∈ requests, request.Fits) ∧
      ∃ responses, session plan MemoryStore.empty requests = .ok responses ∧
        (∀ response ∈ responses, ∀ commit ∈ response.stored?, Storable commit) ∧
        (responses.filterMap Response.stored?).length = 4 ∧
        session plan RowStore.empty requests = .ok responses := by
  intro user plan id record requests
  have fits : ∀ request ∈ requests, request.Fits := by decide
  have answered : (session plan MemoryStore.empty requests).toOption.isSome := by decide +kernel
  obtain ⟨responses, answered⟩ := exists_of_toOption answered
  have small : ∀ responses ∈ (session plan MemoryStore.empty requests).toOption,
      (responses.filterMap Response.stored?).length = 4 ∧
      ∀ commit ∈ responses.filterMap Response.stored?,
        (commit.id.major < 2 ^ 63 ∧ commit.id.minor < 2 ^ 32 ∧
          commit.metadata.timestamp < 2 ^ 63 ∧ commit.metadata.sequence < 2 ^ 63) ∧
        ∀ snapshot ∈ commit.snapshots, snapshot.FitsIn (Codec.nestingLimit - 1) := by
    decide +kernel
  obtain ⟨stored, small⟩ := small responses (mem_toOption answered)
  have storable : ∀ response ∈ responses, ∀ commit ∈ response.stored?, Storable commit := by
    intro response member commit found
    have numbers := small commit (List.mem_filterMap.mpr ⟨response, member, found⟩)
    exact storable_of_fitsIn numbers.1 numbers.2
  refine ⟨fits, responses, answered, storable, stored, ?_⟩
  rw [session_eq plan fits ?_, answered]
  intro others same
  rw [answered, Except.ok.injEq] at same
  exact same ▸ storable

end Journal
end AuditTrail
