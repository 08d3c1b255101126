import AuditTrail.Proofs.Journal.Past
import AuditTrail.Proofs.Shadow.Reading

/-!
# Shadows of what was just recorded

Behind a recording, each captured node is live with a snapshot that it does not differ from, whether
the recording wrote the snapshot or an earlier one did.  The shadow of a captured node is therefore
the captured graph over again, as far as references lead from the node.
-/

namespace AuditTrail

open Schema Comparison

namespace Journal

section Registered

variable {σ : Type} [Store σ] (contract : Store.Contract σ) {types : TypeTable}
  {definitions : List Definition} {journal after : Journal σ} {log : CommitLog}
  {operation : Operation}

/-- The store holds a log, and its snapshots are of the types of the journal. -/
structure Registered (types : TypeTable) (journal : Journal σ) (log : CommitLog) : Prop where
  /-- The store holds the log. -/
  holds : contract.Holds journal.store log
  /-- The journal has the types. -/
  typed : journal.types = types
  /-- Snapshots are of the types, unless they are ends. -/
  formed : ∀ commit ∈ log, ∀ snapshot ∈ commit.snapshots, snapshot.kind ≠ .terminal →
    snapshot.node.Formed types

/-- What an operation writes is of the types of the journal. -/
theorem formed_of_records {metadata : CommitMetadata} {due : SnapshotKind → Node → Prop}
    (records : Records journal operation metadata due) {kind : SnapshotKind} {node : Node}
    (is_due : due kind node) (goes_on : kind ≠ .terminal) : node.Formed journal.types := by
  cases records with
  | commit captured =>
      have formed := (capture_spec captured).2
      cases is_due with
      | initial found => exact formed _ (Graph.mem_rows_of_find? found)
      | update found => exact formed _ (Graph.mem_rows_of_find? found)
      | terminal => exact absurd rfl goes_on
  | delete | deleteObject =>
      cases is_due
      exact absurd rfl goes_on

/-- Operations keep the types, as long as journals are opened with the same classes. -/
theorem types_of_step (holds : contract.Holds journal.store log)
    (accepted : TypeTable.ofDefinitions definitions = .ok journal.types)
    (reopened : ∀ plan, operation = .reopen plan → plan.definitions = definitions) :
    (journal.step operation).2.types = journal.types := by
  have advance : Advance (·.definitions = definitions) journal log (journal.step operation) :=
    step_advance contract holds operation reopened
  generalize journal.step operation = outcome at advance
  cases advance with
  | idle | stamped | stored => rfl
  | reopened same opened =>
      have next := types_of_start opened
      rw [same, accepted, Except.ok.injEq] at next
      exact next.symm

theorem Registered.step (registered : Registered contract types journal log)
    (accepted : TypeTable.ofDefinitions definitions = .ok types)
    (reopened : ∀ plan, operation = .reopen plan → plan.definitions = definitions)
    (fits : ∀ commit ∈ (journal.step operation).1, contract.Fits commit) :
    Registered contract types (journal.step operation).2
      ((journal.step operation).1.toList ++ log) := by
  obtain ⟨holds, rfl, formed⟩ := registered
  refine ⟨holds_step contract holds operation fits,
    types_of_step contract holds accepted reopened, fun commit member => ?_⟩
  rcases List.mem_append.mp member with stored | older
  · obtain ⟨due, records, consists⟩ :=
      step_records contract holds (Option.mem_toList.mp stored)
    exact fun snapshot written goes_on => formed_of_records records
      ((consists _ _).mp ⟨snapshot, written, rfl, rfl⟩) goes_on
  · exact formed commit older

end Registered

section Shadows

variable {σ : Type} [Store σ] (contract : Store.Contract σ) {journal after : Journal σ}
  {log : CommitLog} {moment : Moment} {author : String} {properties : Labels} {heap : Heap}
  {roots : List Slot} {current : Graph} {commit : Commit}

/-- Behind a successful recording, with or without snapshots, what is live follows from what was
due. -/
theorem commit_spec (holds : contract.Holds journal.store log)
    (captured : journal.capture heap roots = .ok current)
    (recorded : journal.commit moment author properties heap roots = (.ok commit, after))
    (fits : contract.Fits commit) :
    commit.Extends log ∧
      commit.ConsistsOf
        (Commit.Due journal.types journal.settings.alignment journal.store current) ∧
      after.types = journal.types ∧
      Shadow.Source after.store .latest (CommitLog.live? (commit :: log)) := by
  rw [Journal.commit, captured] at recorded
  have answered := congrArg Prod.fst recorded
  obtain ⟨assembled, recording, -, extends_log, exactly, -⟩ := recording_spec contract holds
    journal.types journal.settings.diffOptions (journal.stamp moment author properties).1 current
  obtain rfl := Except.ok.inj (recording.symm.trans (recording_of_commitGraph answered))
  obtain ⟨later, holds_after, histories⟩ := histories_of_commitGraph contract holds answered fits
  obtain ⟨store, frame⟩ := exists_store_of_commitGraph journal moment author properties current
  simp only [recorded] at holds_after frame
  refine ⟨extends_log, exactly, by rw [frame]; rfl, ?_⟩
  rw [← CommitLog.live?_congr histories]
  exact contract.source holds_after

/-- Behind a recording, a captured node is live with a snapshot that matches it, if it has changed
or was stored under the type that it is of. -/
theorem Registered.matching {types : TypeTable}
    (registered : Registered contract types journal log)
    (values : types.ComparatorsAre PassesEqual PassesEqual)
    (captured : journal.capture heap roots = .ok current) (extends_log : commit.Extends log)
    (consists : commit.ConsistsOf
      (Commit.Due journal.types journal.settings.alignment journal.store current))
    {node : Node} (found : current.find? node.id = some node)
    (keys : ∀ entry ∈ node.state.entries, entry.2.KeysDistinct)
    (typed : ∀ old, Store.live? journal.store node.id .latest = .ok (some old) →
      compareNodes journal.types journal.settings.alignment (some old.node) (some node) = [] →
      old.typeName = node.typeName) :
    ∃ snapshot, CommitLog.live? (commit :: log) node.id = some snapshot ∧
      Shadow.Matches types journal.settings.alignment snapshot node := by
  obtain ⟨holds, rfl, formed⟩ := registered
  obtain ⟨snapshot, live, rfl | ⟨before, same⟩⟩ :=
    live?_of_captured holds extends_log consists found
  · refine ⟨snapshot, live, (capture_spec captured).2 _ (Graph.mem_rows_of_find? found), rfl, ?_⟩
    rw [compareNodes_self_iff values]
    intro property compared
    exact consistent_of_keysDistinct (comparedProperties_comparatorsAre values compared)
      (State.keysDistinct_get keys property.1)
  · obtain ⟨older, older_mem, written⟩ :=
      List.mem_flatMap.mp (CommitLog.mem_snapshots_of_live? before)
    have old_formed : snapshot.node.Formed journal.types :=
      formed older older_mem snapshot (List.mem_reverse.mp written)
        (CommitLog.live?_eq_some_iff.mp before).2
    have answered := (contract.live?_iff holds).mpr before
    exact ⟨snapshot, live, old_formed, typed snapshot answered same, same⟩

end Shadows

end Journal
end AuditTrail
