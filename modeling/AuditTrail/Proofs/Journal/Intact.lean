import AuditTrail.Proofs.Journal.Backends
import AuditTrail.Proofs.Store.Gains
import AuditTrail.Proofs.Store.Writing

/-!
# Stored as a whole or not at all

However a commit comes about, a backend either holds all of it afterwards and besides what it held
before, or fails and is left as it was, whichever of its steps fails.  So an operation of a journal
that fails, or finds nothing to record, leaves what is stored as it was.
-/

namespace AuditTrail

namespace Assembly

variable {σ : Type} [Store σ] {store : σ} {loaded latest : LatestSnapshots}
  {pending rest : List GlobalId} {snapshot : Snapshot} {id : GlobalId}

/-- Newest snapshots are of the nodes that they are found for, and they are counted. -/
structure Faithful (store : σ) : Prop where
  /-- They are of the nodes that they are found for. -/
  named : ∀ {id snapshot}, Store.latest? store id = .ok (some snapshot) → snapshot.id = id
  /-- They are counted. -/
  counted : ∀ {id snapshot}, Store.latest? store id = .ok (some snapshot) →
    0 < Store.snapshotCount store

theorem Faithful.notMem_of_firstStored (faithful : Faithful store)
    (found : firstStored store loaded pending = .ok (some (snapshot, rest))) :
    snapshot.id ∉ loaded.keys := by
  induction pending with
  | nil => cases found
  | cons id pending induction =>
      rw [firstStored] at found
      split at found
      next => exact induction found
      next unknown =>
        obtain ⟨newest, answered, found⟩ := bind_eq_ok_iff.mp found
        cases newest with
        | none => exact induction found
        | some newest =>
            obtain ⟨rfl, -⟩ := Prod.mk.inj (Option.some.inj (Except.ok.inj found))
            rwa [faithful.named answered, ← Table.isSome_find?_iff, ← Table.contains_eq]

/-- Loading more snapshots keeps those that are loaded. -/
theorem Faithful.mem_load (faithful : Faithful store) {room : Nat}
    (loads : load store room loaded pending = .ok latest) (member : snapshot ∈ loaded.rows) :
    snapshot ∈ latest.rows := by
  induction room generalizing loaded pending with
  | zero =>
      rw [load] at loads
      obtain ⟨found, -, loads⟩ := bind_eq_ok_iff.mp loads
      cases found with
      | none => exact Except.ok.inj loads ▸ member
      | some => exact Except.ok.inj loads ▸ member
  | succ room induction =>
      rw [load] at loads
      obtain ⟨found, first, loads⟩ := bind_eq_ok_iff.mp loads
      cases found with
      | none => exact Except.ok.inj loads ▸ member
      | some found =>
          refine induction loads (Table.mem_put_iff.mpr (.inr ⟨member, fun same => ?_⟩))
          exact faithful.notMem_of_firstStored first (same ▸ List.mem_map_of_mem member)

/-- The closure of a stored node has the node. -/
theorem Faithful.mem_closure (faithful : Faithful store)
    (found : Store.latest? store id = .ok (some snapshot))
    (closed : closure store [id] = .ok latest) : snapshot ∈ latest.rows := by
  obtain ⟨room, count⟩ := Nat.exists_eq_succ_of_ne_zero (faithful.counted found).ne'
  have first : firstStored store .empty [id] = .ok (some (snapshot, [])) := by
    rw [firstStored, found]
    rfl
  rw [closure, count, load, List.reverse_singleton, first] at closed
  exact faithful.mem_load closed (Table.mem_put_iff.mpr (.inl rfl))

/-- A commit that ends a node has the end of the node at least. -/
theorem Faithful.filled_of_terminating (faithful : Faithful store) {metadata : CommitMetadata}
    {commit : Commit} (assembled : Commit.terminating store metadata id = .ok (some commit)) :
    ¬ commit.isEmpty := by
  obtain ⟨found, live, assembled⟩ := bind_eq_ok_iff.mp assembled
  cases found with
  | none => cases Except.ok.inj assembled
  | some snapshot =>
      obtain ⟨newest, first, kept⟩ := bind_eq_ok_iff.mp live
      obtain ⟨rfl, alive⟩ := Option.filter_eq_some_iff.mp (Except.ok.inj kept)
      obtain ⟨latest, closed, assembled⟩ := bind_eq_ok_iff.mp assembled
      obtain rfl := Option.some.inj (Except.ok.inj assembled)
      have member : snapshot ∈ latest.live :=
        List.mem_filter.mpr ⟨faithful.mem_closure first closed, alive⟩
      simp [Commit.isEmpty, List.ne_nil_of_mem member]

end Assembly

namespace Journal

variable {σ : Type} [Store σ] {journal : Journal σ}

/-- Either a commit is answered with and stored, or nothing is stored. -/
structure Whole (journal : Journal σ) (answered : Response × Journal σ) : Prop where
  /-- Without a commit, the store stays as it is. -/
  kept : answered.1.stored? = none → answered.2.store = journal.store
  /-- A commit is stored all at once. -/
  stored : ∀ commit, answered.1.stored? = some commit →
    Store.persist journal.store commit = .ok answered.2.store

theorem whole_of_stored?_eq_none {answered : Response × Journal σ}
    (nothing : answered.1.stored? = none) (same : answered.2.store = journal.store) :
    journal.Whole answered :=
  ⟨fun _ => same, fun _ stored => absurd (nothing.symm.trans stored) (Option.some_ne_none _).symm⟩

theorem whole_of_error (error : AuditError) {next : Journal σ}
    (same : next.store = journal.store) : journal.Whole (.commit (.error error), next) :=
  whole_of_stored?_eq_none rfl same

theorem whole_persist {commit : Commit} (filled : ¬ commit.isEmpty) {next : Journal σ}
    (same : next.store = journal.store) :
    journal.Whole (.commit (next.persist commit).1, (next.persist commit).2) := by
  unfold persist
  cases persisted : Store.persist next.store commit with
  | error error => exact whole_of_error _ same
  | ok store =>
      have stored : (Response.commit (.ok commit)).stored? = some commit := if_neg filled
      refine ⟨fun none => ?_, fun other some => ?_⟩
      · rw [stored] at none
        cases none
      · obtain rfl := Option.some.inj (stored.symm.trans some)
        rw [← same, persisted]

theorem whole_commitGraph (moment : Moment) (author : String) (properties : Labels)
    (current : Graph) :
    journal.Whole (.commit (journal.commitGraph moment author properties current).1,
      (journal.commitGraph moment author properties current).2) := by
  rw [commitGraph_eq]
  split
  next => exact whole_of_error _ rfl
  next commit _ =>
    split
    next empty => exact whole_of_stored?_eq_none (if_pos empty) rfl
    next filled => exact whole_persist filled rfl

theorem whole_delete (faithful : Assembly.Faithful journal.store) (moment : Moment)
    (author : String) (id : GlobalId) :
    journal.Whole (.commit (journal.delete moment author id).1,
      (journal.delete moment author id).2) := by
  rw [delete_eq]
  split
  next => exact whole_of_error _ rfl
  next => exact whole_of_error _ rfl
  next assembled => exact whole_persist (faithful.filled_of_terminating assembled) rfl

/-- Every request that is not answered with a commit leaves the store as it is. -/
theorem whole_answer (faithful : Assembly.Faithful journal.store) (request : Request) :
    journal.Whole (journal.answer request) := by
  cases request with
  | commit moment author properties heap roots =>
      simp only [answer, Journal.commit]
      cases journal.capture heap roots with
      | error error => exact whole_of_error _ rfl
      | ok current => exact whole_commitGraph moment author properties current
  | delete moment author id => exact whole_delete faithful moment author id
  | deleteObject moment author heap slot =>
      simp only [answer, deleteObject]
      cases journal.idOf heap slot with
      | error error => exact whole_of_error _ rfl
      | ok id => exact whole_delete faithful moment author id
  | snapshotsOf | latest | shadow => exact whole_of_stored?_eq_none rfl rfl

end Journal

namespace Backend

variable {backend : Backend}

theorem Sound.faithful (sound : backend.Sound) : Assembly.Faithful backend where
  named found := (sound.of_mem_found (mem_found_of_first? found)).1
  counted found :=
    (List.length_pos_of_mem (sound.of_mem_found (mem_found_of_first? found)).2).trans_le
      backend.length_ids_le

/-- Whatever commit is to be stored and wherever a statement breaks off, a backend is left as it was
or gains the commit and nothing else.  A journal over it stores commits in no other way, and only
those that it answers with: errors and empty commits leave what is stored as it was. -/
theorem whole_or_nothing (sound : backend.Sound) :
    (∀ breaks commit,
      (∃ error, (write breaks commit).run backend = .error error backend) ∨
        ∃ after, (write breaks commit).run backend = .ok () after ∧
          after.Sound ∧ (commit.metadata.Fits → Gains backend commit after)) ∧
    (∀ commit, (write (fun _ => false) commit).run backend =
      match Store.persist backend commit with
      | .ok after => .ok () after
      | .error error => .error error backend) ∧
    ∀ (journal : Journal Backend) (request : Journal.Request), journal.store = backend →
      ((journal.answer request).1.stored? = none → (journal.answer request).2.store = backend) ∧
        ∀ commit, (journal.answer request).1.stored? = some commit →
          Store.persist backend commit = .ok (journal.answer request).2.store := by
  refine ⟨fun breaks commit => ?_, fun commit => ?_, fun journal request same => ?_⟩
  · rcases write_cases breaks commit backend with ⟨_, -, broken⟩ | ran
    · exact .inl ⟨_, broken⟩
    · rw [ran, Writing.run_atOnce]
      cases persisted : backend.persist commit with
      | error error => exact .inl ⟨error, rfl⟩
      | ok after =>
          have stored := sound.stored persisted
          exact .inr ⟨after, rfl, stored.sound, stored.gains⟩
  · have same : Store.persist backend commit = backend.persist commit := rfl
    rw [write_eq, Writing.run_atOnce, same]
    cases backend.persist commit <;> rfl
  · subst same
    have whole := Journal.whole_answer sound.faithful request
    exact ⟨whole.kept, whole.stored⟩

/-- Of two snapshots the second one conflicts with what is stored, so neither is stored.  The first
one is stored by itself, unless the statement behind it breaks off.  Ending a node that is not
stored is refused. -/
theorem whole_or_nothing_conflict :
    let snapshot (id : Int) (number : Nat) : Snapshot :=
      ⟨.entity "User" (.int id), "User", ⟨⟨number, 0⟩, "ann", 5, number, .empty⟩, .initial, .empty,
        [], 1, none⟩
    let commit (number : Nat) (ids : List Int) : Commit :=
      ⟨⟨⟨number, 0⟩, "ann", 5, number, .empty⟩, ⟨[]⟩, ids.map fun id => snapshot id number⟩
    let backend : Backend := .rows (RowStore.empty.adding (commit 1 [1]))
    let journal : Journal Backend := ⟨{}, .empty, backend, .sequential 1, 1⟩
    let ending : Journal.Request := .delete ⟨6, 0⟩ "ann" (.entity "User" (.int 3))
    let full (store : RowStore) : Bool := store.snapshots.length == 2
    backend.Sound ∧
      (∃ error, (write (fun _ => false) (commit 2 [2, 1])).run backend = .error error backend) ∧
      (∃ error, (write full (commit 2 [2])).run backend = .error error backend) ∧
      (∃ after, (write (fun _ => false) (commit 2 [2])).run backend = .ok () after ∧
        after.Sound ∧ Gains backend (commit 2 [2]) after) ∧
      (journal.answer ending).2.store = backend := by
  intro snapshot commit backend journal ending full
  have empty : (rows .empty).Sound := RowStore.sound_empty
  have first : persist (.rows .empty) (commit 1 [1]) = .ok backend := rfl
  have sound : backend.Sound := (empty.stored first).sound
  obtain ⟨written, -, answered⟩ := whole_or_nothing sound
  have refused : ((write (fun _ => false) (commit 2 [2, 1])).run' backend).isNone := by
    decide +kernel
  have cut : ((write full (commit 2 [2])).run' backend).isNone := by decide +kernel
  have taken : ((write (fun _ => false) (commit 2 [2])).run' backend).isSome := by decide +kernel
  have absent : (journal.answer ending).1.stored?.isNone := by decide +kernel
  refine ⟨sound, ?_, ?_, ?_, ?_⟩
  · rcases written (fun _ => false) (commit 2 [2, 1]) with failed | ⟨after, ran, -⟩
    · exact failed
    · rw [EStateM.run', ran] at refused
      cases refused
  · rcases written full (commit 2 [2]) with failed | ⟨after, ran, -⟩
    · exact failed
    · rw [EStateM.run', ran] at cut
      cases cut
  · rcases written (fun _ => false) (commit 2 [2]) with ⟨error, failed⟩ | ⟨after, ran, sound, gains⟩
    · rw [EStateM.run', failed] at taken
      cases taken
    · exact ⟨after, ran, sound, gains (by decide)⟩
  · exact (answered journal _ rfl).1 (Option.isNone_iff_eq_none.mp absent)

end Backend
end AuditTrail
