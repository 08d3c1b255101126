import AuditTrail.Proofs.Journal.Run
import AuditTrail.Proofs.Store.Keys

/-!
# Writers that share a store

A writer first assembles a commit over the store as it is and stores it later, when other writers
may have stored theirs.  Each snapshot has the version behind the newest one that its writer has
seen, so a store that takes no version twice refuses whatever was assembled over an outdated
history.
-/

namespace AuditTrail

open Schema

section Histories

variable {log base : CommitLog} {id : GlobalId} {commit : Commit}

theorem CommitLog.history_append (newer log : CommitLog) (id : GlobalId) :
    history (newer ++ log) id = newer.history id ++ log.history id := by
  rw [history, snapshots, List.flatMap_append, List.filter_append]
  rfl

/-- A chained history has every version up to its length. -/
theorem Snapshot.exists_version_of_chained {history : List Snapshot} (chained : Chained history)
    {version : Nat} (positive : 0 < version) (below : version ≤ history.length) :
    ∃ snapshot ∈ history, snapshot.version = version := by
  have versions := (wellFormed_of_chained chained).versions
  have member : version ∈ history.reverse.map (·.version) := by
    rw [versions, List.length_reverse, List.mem_range'_1]
    omega
  obtain ⟨snapshot, written, rfl⟩ := List.mem_map.mp member
  exact ⟨snapshot, List.mem_reverse.mp written, rfl⟩

/-- If the version behind an older history is not taken yet, the history has not grown. -/
theorem CommitLog.history_eq_of_untaken (chained : ∀ id, Snapshot.Chained (log.history id))
    (base_chained : ∀ id, Snapshot.Chained (base.history id)) (grown : base <:+ log)
    (untaken : ∀ older ∈ log.history id, older.version ≠ base.version id + 1) :
    log.history id = base.history id := by
  obtain ⟨newer, rfl⟩ := grown
  have version_eq : base.version id = (base.history id).length :=
    Snapshot.version_of_chained (base_chained id)
  have chained_here := chained id
  rw [history_append] at untaken chained_here ⊢
  by_contra changed
  have gained : history newer id ≠ [] := fun none => changed (by rw [none, List.nil_append])
  have longer := List.length_pos_of_ne_nil gained
  obtain ⟨older, member, taken⟩ := Snapshot.exists_version_of_chained chained_here
    (Nat.succ_pos (base.version id)) (by rw [List.length_append]; omega)
  exact untaken older member taken

/-- A commit that continues an older log continues every log with the same histories of its
nodes. -/
theorem Commit.Extends.of_history_eq (extends_base : commit.Extends base)
    (same : ∀ snapshot ∈ commit.snapshots, log.history snapshot.id = base.history snapshot.id) :
    commit.Extends log where
  increasing := extends_base.increasing
  stamped := extends_base.stamped
  follows snapshot member := by
    rw [CommitLog.latest?, same snapshot member]
    exact extends_base.follows snapshot member

end Histories

section Guards

/-- A store takes no snapshot of a version that the history of its node has already. -/
def Store.Contract.Guards {σ : Type} [Store σ] (contract : Store.Contract σ) : Prop :=
  ∀ {store log commit after}, contract.Holds store log →
    (∀ id, Snapshot.Chained (log.history id)) → contract.Fits commit →
    Store.persist store commit = .ok after → ∀ snapshot ∈ commit.snapshots,
      ∀ older ∈ log.history snapshot.id, older.version ≠ snapshot.version

/-- In a chained history, no version is above that of the newest snapshot. -/
theorem Snapshot.version_le_of_chained {history : List Snapshot} (chained : Chained history)
    {snapshot : Snapshot} (member : snapshot ∈ history) : snapshot.version ≤ history.length := by
  have versions := (wellFormed_of_chained chained).versions
  have written : snapshot.version ∈ history.reverse.map (·.version) :=
    List.mem_map_of_mem (List.mem_reverse.mpr member)
  rw [versions, List.length_reverse, List.mem_range'_1] at written
  omega

/-- The store in memory takes only snapshots that are newer than the history of their node. -/
theorem MemoryStore.guards : MemoryStore.contract.Guards := by
  intro store log commit after holds chained _ persisted snapshot member older written same
  change MemoryStore.Holds store log at holds
  change store.persist commit = .ok after at persisted
  have fresh : store.stale? commit.snapshots = none := by
    unfold MemoryStore.persist at persisted
    split_ifs at persisted
    cases stale : store.stale? commit.snapshots with
    | none => rfl
    | some => rw [stale] at persisted; cases persisted
  have newer := List.find?_eq_none.mp fresh snapshot member
  rw [holds.latestVersion_eq, decide_eq_true_eq, not_le, CommitLog.version, CommitLog.latest?,
    Snapshot.version_of_chained (chained snapshot.id)] at newer
  have below := Snapshot.version_le_of_chained (chained snapshot.id) written
  omega

/-- The store in rows takes no snapshot of the same node and version as another one. -/
theorem RowStore.guards (distinct : Function.Injective SnapshotRow.keyOf) :
    (RowStore.contract distinct).Guards := by
  intro store log commit after holds _ fits persisted snapshot member older written same
  change RowStore.Holds store log at holds
  change RowStore.Fits commit at fits
  change store.persist commit = .ok after at persisted
  obtain ⟨-, apart, -⟩ := RowStore.of_persist persisted
  have named := CommitLog.id_of_mem_history written
  obtain ⟨other, other_mem, older_mem⟩ :=
    List.mem_flatMap.mp (List.mem_filter.mp written).1
  have older_mem := List.mem_reverse.mp older_mem
  refine apart _ (List.mem_map_of_mem member) (.ofSnapshot other.id older) ?_
    ((fits.conflicts_iff distinct (holds.fits other other_mem) member older_mem).mpr
      ⟨named.symm, same.symm⟩)
  rw [holds.snapshots, mem_snapshotRows_iff]
  exact ⟨other, other_mem, older, older_mem, rfl⟩

end Guards

/-- A commit that a writer has assembled, and the store that the writer has read. -/
structure Draft (σ : Type) where
  /-- The store as the writer has read it. -/
  base : σ
  /-- The commit. -/
  commit : Commit

/-- A store and what its writers have assembled, the oldest first. -/
structure Shared (σ : Type) where
  /-- The store. -/
  store : σ
  /-- The assembled commits, stored or not. -/
  drafts : List (Draft σ)

namespace Shared

variable {σ : Type} [Store σ]

/-- One step of one of the writers. -/
inductive Step where
  /-- A writer assembles a recording of a captured graph. -/
  | record (types : TypeTable) (options : DiffOptions) (metadata : CommitMetadata)
    (current : Graph)
  /-- A writer assembles the end of a node. -/
  | terminate (metadata : CommitMetadata) (id : GlobalId)
  /-- The writer of a draft stores it. -/
  | persist (index : Nat)

omit [Store σ] in
/-- Add a draft over the store as it is. -/
def draft (shared : Shared σ) (commit : Commit) : Shared σ :=
  { shared with drafts := shared.drafts ++ [⟨shared.store, commit⟩] }

/-- Carry out a step.  There is no draft of a recording without snapshots or of the end of a node
that is not live, and a commit that is refused changes nothing. -/
def step (shared : Shared σ) : Step → Shared σ
  | .record types options metadata current =>
    match Commit.recording types options shared.store metadata current with
    | .ok commit => if commit.isEmpty then shared else shared.draft commit
    | .error _ => shared
  | .terminate metadata id =>
    match Commit.terminating shared.store metadata id with
    | .ok (some commit) => shared.draft commit
    | .ok none | .error _ => shared
  | .persist index =>
    match shared.drafts[index]? with
    | none => shared
    | some draft =>
      match Store.persist shared.store draft.commit with
      | .ok store => { shared with store }
      | .error _ => shared

/-- Carry out steps in order. -/
def run (shared : Shared σ) (steps : List Step) : Shared σ := steps.foldl step shared

section Attempts

/-- Storing the only draft leaves behind what storing its commit does. -/
theorem store_persist (journal : Journal σ) (commit : Commit) :
    (journal.persist commit).2.store =
      (((⟨journal.store, []⟩ : Shared σ).draft commit).step (.persist 0)).store := by
  simp only [Journal.persist, step, draft, List.nil_append, List.getElem?_cons_zero]
  cases Store.persist journal.store commit <;> rfl

/-- An attempt to record is an assembly and a persist with nothing in between. -/
theorem store_commitGraph (journal : Journal σ) (moment : Moment) (author : String)
    (properties : Labels) (current : Graph) :
    (journal.commitGraph moment author properties current).2.store =
      ((⟨journal.store, []⟩ : Shared σ).run
        [.record journal.types journal.settings.diffOptions
          (journal.stamp moment author properties).1 current, .persist 0]).store := by
  simp only [run, List.foldl_cons, List.foldl_nil, Journal.commitGraph, Journal.stamp]
  cases assembled : Commit.recording journal.types journal.settings.diffOptions journal.store
      ⟨(journal.numbering.next moment.draw).1, author, moment.now, journal.lastSequence + 1,
        properties⟩ current with
  | error => simp only [step, assembled, List.getElem?_nil]
  | ok commit =>
      simp only [step, assembled]
      split
      next => simp only [List.getElem?_nil]
      next => exact store_persist (journal.stamp moment author properties).2 commit

/-- So is an attempt to end a node. -/
theorem store_delete (journal : Journal σ) (moment : Moment) (author : String) (id : GlobalId) :
    (journal.delete moment author id).2.store =
      ((⟨journal.store, []⟩ : Shared σ).run
        [.terminate (journal.stamp moment author .empty).1 id, .persist 0]).store := by
  simp only [run, List.foldl_cons, List.foldl_nil, Journal.delete, Journal.stamp]
  cases assembled : Commit.terminating journal.store
      ⟨(journal.numbering.next moment.draw).1, author, moment.now, journal.lastSequence + 1,
        .empty⟩ id with
  | error => simp only [step, assembled, List.getElem?_nil]
  | ok found =>
      cases found with
      | none => simp only [step, assembled, List.getElem?_nil]
      | some commit =>
          simp only [step, assembled]
          exact store_persist (journal.stamp moment author .empty).2 commit

end Attempts

section Invariant

variable (contract : Store.Contract σ) {shared : Shared σ} {log : CommitLog} {commit : Commit}

/-- The store holds a log with chained histories, and every draft continues a part of the log that
its writer has read. -/
structure Consistent (shared : Shared σ) (log : CommitLog) : Prop where
  /-- The store holds the log. -/
  holds : contract.Holds shared.store log
  /-- Snapshots follow one another. -/
  chained : ∀ id, Snapshot.Chained (log.history id)
  /-- Drafts continue what the log began with. -/
  drafted : ∀ draft ∈ shared.drafts, ∃ base, contract.Holds draft.base base ∧ base <:+ log ∧
    (∀ id, Snapshot.Chained (base.history id)) ∧ draft.commit.Extends base

variable {contract}

/-- If the store takes a draft, no node that the draft writes has gained a snapshot since its writer
read the store. -/
theorem Consistent.untouched (consistent : Consistent contract shared log)
    (guards : contract.Guards) {draft : Draft σ} (member : draft ∈ shared.drafts)
    (fits : contract.Fits draft.commit) {after : σ}
    (persisted : Store.persist shared.store draft.commit = .ok after) :
    ∃ base, contract.Holds draft.base base ∧ draft.commit.Extends base ∧
      ∀ snapshot ∈ draft.commit.snapshots, log.history snapshot.id = base.history snapshot.id := by
  obtain ⟨base, holds, grown, chained, extends_base⟩ := consistent.drafted draft member
  refine ⟨base, holds, extends_base, fun snapshot written => ?_⟩
  refine CommitLog.history_eq_of_untaken consistent.chained chained grown fun older older_mem => ?_
  have behind : snapshot.version = base.version snapshot.id + 1 :=
    (extends_base.follows snapshot written).version
  rw [← behind]
  exact guards consistent.holds consistent.chained fits persisted snapshot written older older_mem

/-- A new draft continues the log as it is. -/
theorem Consistent.draft (consistent : Consistent contract shared log)
    (extends_log : commit.Extends log) : Consistent contract (shared.draft commit) log where
  holds := consistent.holds
  chained := consistent.chained
  drafted draft member := by
    rcases List.mem_append.mp member with older | newest
    · exact consistent.drafted draft older
    · rw [List.mem_singleton.mp newest]
      exact ⟨log, consistent.holds, List.suffix_refl log, consistent.chained, extends_log⟩

/-- A draft that is stored continues the log as it is. -/
theorem Consistent.persist (consistent : Consistent contract shared log) (guards : contract.Guards)
    {draft : Draft σ} (member : draft ∈ shared.drafts) (fits : contract.Fits draft.commit)
    {after : σ} (persisted : Store.persist shared.store draft.commit = .ok after) :
    Consistent contract { shared with store := after } (draft.commit :: log) := by
  obtain ⟨base, -, extends_base, same⟩ := consistent.untouched guards member fits persisted
  have extends_log : draft.commit.Extends log := extends_base.of_history_eq same
  have fresh : draft.commit.id ∉ log.map Commit.id := by
    intro taken
    rw [contract.persist_taken consistent.holds taken] at persisted
    cases persisted
  obtain ⟨next, stored, holds⟩ :=
    contract.persist_fresh consistent.holds extends_log.continues fits fresh
  obtain rfl : next = after := Except.ok.inj (stored.symm.trans persisted)
  refine ⟨holds, Journal.chained_cons extends_log consistent.chained, fun other other_mem => ?_⟩
  obtain ⟨base, holds, grown, rest⟩ := consistent.drafted other other_mem
  exact ⟨base, holds, grown.trans (List.suffix_cons _ _), rest⟩

/-- Every step of a writer keeps drafts and store consistent. -/
theorem Consistent.step (consistent : Consistent contract shared log) (guards : contract.Guards)
    (fits : ∀ draft ∈ shared.drafts, contract.Fits draft.commit) (step : Step) :
    ∃ later, Consistent contract (shared.step step) later := by
  cases step with
  | record types options metadata current =>
      obtain ⟨commit, assembled, -, extends_log, -⟩ :=
        recording_spec contract consistent.holds types options metadata current
      simp only [Shared.step, assembled]
      split
      next => exact ⟨log, consistent⟩
      next => exact ⟨log, consistent.draft extends_log⟩
  | terminate metadata id =>
      have answered := contract.live?_eq consistent.holds id
      cases found : (log.latest? id).filter fun snapshot => !snapshot.isTerminal with
      | none =>
          rw [found] at answered
          simp only [Shared.step, terminating_of_ended metadata answered]
          exact ⟨log, consistent⟩
      | some live =>
          rw [found] at answered
          obtain ⟨commit, assembled, -, extends_log, -⟩ :=
            terminating_spec contract consistent.holds metadata answered
          simp only [Shared.step, assembled]
          exact ⟨log, consistent.draft extends_log⟩
  | persist index =>
      simp only [Shared.step]
      split
      next => exact ⟨log, consistent⟩
      next draft found =>
        have member := List.mem_of_getElem? found
        split
        next after persisted =>
          exact ⟨_, consistent.persist guards member (fits draft member) persisted⟩
        next => exact ⟨log, consistent⟩

end Invariant

section Runs

variable {contract : Store.Contract σ} {shared : Shared σ} {log : CommitLog}

/-- Drafts stay. -/
theorem drafts_subset_step (shared : Shared σ) (step : Step) :
    shared.drafts ⊆ (shared.step step).drafts := by
  have drafted (commit : Commit) : shared.drafts ⊆ (shared.draft commit).drafts :=
    List.subset_append_left _ _
  cases step with
  | record types options metadata current =>
      simp only [Shared.step]
      split
      next => split; exacts [List.Subset.refl _, drafted _]
      next => exact List.Subset.refl _
  | terminate metadata id =>
      simp only [Shared.step]
      split
      next => exact drafted _
      next => exact List.Subset.refl _
      next => exact List.Subset.refl _
  | persist index =>
      simp only [Shared.step]
      split
      next => exact List.Subset.refl _
      next => split <;> exact List.Subset.refl _

theorem drafts_subset_run (shared : Shared σ) (steps : List Step) :
    shared.drafts ⊆ (shared.run steps).drafts := by
  induction steps generalizing shared with
  | nil => exact fun _ member => member
  | cons step steps induction =>
      exact fun _ member => induction (shared.step step) (drafts_subset_step shared step member)

/-- So does every run of steps. -/
theorem Consistent.run (consistent : Consistent contract shared log) (guards : contract.Guards)
    {steps : List Step} (fits : ∀ draft ∈ (shared.run steps).drafts, contract.Fits draft.commit) :
    ∃ later, Consistent contract (shared.run steps) later := by
  induction steps generalizing shared log with
  | nil => exact ⟨log, consistent⟩
  | cons step steps induction =>
      have now : ∀ draft ∈ shared.drafts, contract.Fits draft.commit := fun draft member =>
        fits draft (drafts_subset_run shared (step :: steps) member)
      obtain ⟨next, stepped⟩ := consistent.step guards now step
      exact induction stepped fits

end Runs

/-- What writers that share a store can rely on. -/
structure Safe (shared : Shared σ) : Prop where
  /-- Every history is numbered from one, and each snapshot names the commit before. -/
  wellFormed : ∀ id, ∃ history, Store.snapshotsOf shared.store id .all = .ok history ∧
    Snapshot.WellFormed history.reverse
  /-- A draft is stored only if the nodes that it writes have the histories that its writer has
  seen. -/
  untouched : ∀ draft ∈ shared.drafts, ∀ after,
    Store.persist shared.store draft.commit = .ok after → ∀ snapshot ∈ draft.commit.snapshots,
      Store.snapshotsOf shared.store snapshot.id .all =
        Store.snapshotsOf draft.base snapshot.id .all
  /-- A draft that is refused changes nothing. -/
  refused : ∀ index draft error, shared.drafts[index]? = some draft →
    Store.persist shared.store draft.commit = .error error → shared.step (.persist index) = shared

/-- Writers are safe as long as store and drafts are consistent. -/
theorem Consistent.safe {contract : Store.Contract σ} {shared : Shared σ} {log : CommitLog}
    (consistent : Consistent contract shared log) (guards : contract.Guards)
    (fits : ∀ draft ∈ shared.drafts, contract.Fits draft.commit) : shared.Safe where
  wellFormed id := ⟨_, contract.history_eq consistent.holds id,
    Snapshot.wellFormed_of_chained (consistent.chained id)⟩
  untouched draft member after persisted snapshot written := by
    obtain ⟨base, holds, -, same⟩ :=
      consistent.untouched guards member (fits draft member) persisted
    rw [contract.history_eq consistent.holds, contract.history_eq holds, same snapshot written]
  refused index draft error found refused := by
    simp only [Shared.step, found, refused]

/-- From an empty store of either kind, in every interleaving of assembling and storing, writers are
safe. -/
theorem run_safe :
    (∀ steps, ((⟨.empty, []⟩ : Shared MemoryStore).run steps).Safe) ∧
      ∀ steps, (∀ draft ∈ ((⟨.empty, []⟩ : Shared RowStore).run steps).drafts,
        RowStore.Fits draft.commit) → ((⟨.empty, []⟩ : Shared RowStore).run steps).Safe := by
  constructor
  · intro steps
    have start : Consistent MemoryStore.contract ⟨.empty, []⟩ [] :=
      ⟨MemoryStore.contract.holds_empty, fun _ => trivial, fun _ member => (nomatch member)⟩
    obtain ⟨log, consistent⟩ := start.run MemoryStore.guards fun _ _ => trivial
    exact consistent.safe MemoryStore.guards fun _ _ => trivial
  · intro steps fits
    have guards : (RowStore.contract SnapshotRow.keyOf_injective).Guards := RowStore.guards _
    have start : Consistent (RowStore.contract SnapshotRow.keyOf_injective) ⟨.empty, []⟩ [] :=
      ⟨(RowStore.contract _).holds_empty, fun _ => trivial, fun _ member => (nomatch member)⟩
    obtain ⟨log, consistent⟩ := start.run guards fits
    exact consistent.safe guards fits

/-- Two writers record a user who is not stored yet under different names.  The one who stores
second is refused, and the user is left as the first one has stored it. -/
theorem run_safe_refused :
    let id : GlobalId := .entity "User" (.int 1)
    let user (name : String) : Graph := .ofNodes [id]
      [⟨id, "User", .ofList [("id", .scalar (.int 1)), ("name", .scalar (.text name))]⟩]
    let record (number : Nat) (name : String) : Step :=
      .record .empty ⟨.positional, false, false⟩ ⟨⟨number, 0⟩, "ann", 0, number, .empty⟩ (user name)
    let steps : List Step := [record 1 "Ada", record 2 "Bea", .persist 0, .persist 1]
    let final := (⟨.empty, []⟩ : Shared RowStore).run steps
    (∀ draft ∈ final.drafts, RowStore.Fits draft.commit) ∧ final.Safe ∧
      final.drafts.length = 2 ∧ final.store.commits.length = 1 ∧
      ∀ draft ∈ final.drafts[1]?, ∀ after, Store.persist final.store draft.commit ≠ .ok after := by
  intro id user record steps final
  have numbers : ∀ draft ∈ final.drafts,
      (draft.commit.id.major < 2 ^ 63 ∧ draft.commit.id.minor < 2 ^ 32 ∧
        draft.commit.metadata.sequence < 2 ^ 63) ∧
      ∀ snapshot ∈ draft.commit.snapshots,
        snapshot.version < 2 ^ 63 ∧ snapshot.FitsIn (Codec.nestingLimit - 1) := by decide +kernel
  have fits : ∀ draft ∈ final.drafts, RowStore.Fits draft.commit := fun draft member =>
    RowStore.fits_of_fitsIn (numbers draft member).1 (numbers draft member).2
  have refused : ∀ draft ∈ final.drafts[1]?,
      (Store.persist final.store draft.commit).toOption.isNone := by decide +kernel
  refine ⟨fits, run_safe.2 steps fits, by decide +kernel, by decide +kernel, ?_⟩
  intro draft found after persisted
  have none := refused draft found
  rw [persisted] at none
  cases none

end Shared
end AuditTrail
