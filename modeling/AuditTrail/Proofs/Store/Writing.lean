import AuditTrail.Store.Backend
import Mathlib

/-!
# Writing in place

A store is written to in place, one step after another, and a step may fail when others have been
taken already.  The store in memory therefore looks at the whole of a commit before it writes any of
it.  The store in rows writes inside a transaction, which takes back what it has written where a
statement fails; besides a conflict, any statement may break off for reasons outside the store.
-/

namespace AuditTrail

/-- A program that writes to a store in place.  Where it fails, what it has written stays. -/
abbrev Writing (σ : Type) := EStateM StoreError σ

namespace Writing

variable {σ : Type}

/-- Carry out a program as a whole: where it fails, what it has written is taken back. -/
def transaction (body : Writing σ Unit) : Writing σ Unit := fun store =>
  match body.run store with
  | .ok () after => .ok () after
  | .error error _ => .error error store

/-- Carry out a statement, unless the store breaks off in front of it. -/
def statement (breaks : σ → Bool) (body : Writing σ Unit) : Writing σ Unit := do
  if breaks (← get) then throw .brokenOff
  body

/-- Do all at once what `act` does, or fail without writing anything. -/
def atOnce (act : σ → Except StoreError σ) : Writing σ Unit := fun store =>
  match act store with
  | .ok after => .ok () after
  | .error error => .error error store

theorem run_atOnce (act : σ → Except StoreError σ) (store : σ) :
    (atOnce act).run store =
      match act store with
      | .ok after => .ok () after
      | .error error => .error error store := rfl

/-- A program does what `act` does unless it breaks off.  Where it fails, it may leave anything. -/
def Follows (breaks : σ → Bool) (program : Writing σ Unit) (act : σ → Except StoreError σ) : Prop :=
  ∀ store,
    (∃ cause after, breaks cause ∧ program.run store = .error .brokenOff after) ∨
    (∃ error after, act store = .error error ∧ program.run store = .error error after) ∨
    ∃ after, act store = .ok after ∧ program.run store = .ok () after

variable {breaks : σ → Bool} {program next : Writing σ Unit} {act then_ : σ → Except StoreError σ}

theorem Follows.congr (follows : Follows breaks program act)
    (same : ∀ store, act store = then_ store) : Follows breaks program then_ :=
  funext same ▸ follows

theorem Follows.pure : Follows breaks (pure ()) .ok := fun store => .inr (.inr ⟨store, rfl, rfl⟩)

theorem Follows.modify (change : σ → σ) :
    Follows breaks (modify change) fun store => .ok (change store) :=
  fun store => .inr (.inr ⟨change store, rfl, rfl⟩)

theorem Follows.statement (follows : Follows breaks program act) :
    Follows breaks (statement breaks program) act := by
  intro store
  cases broken : breaks store with
  | true =>
      refine .inl ⟨store, store, broken, ?_⟩
      simp only [Writing.statement, EStateM.run_bind, EStateM.run_get, broken, if_true,
        EStateM.run_throw]
  | false =>
      have same : (Writing.statement breaks program).run store = program.run store := by
        simp only [Writing.statement, EStateM.run_bind, EStateM.run_get, broken,
          Bool.false_eq_true, if_false]
      rw [same]
      exact follows store

theorem Follows.seq (first : Follows breaks program act) (second : Follows breaks next then_) :
    Follows breaks (do program; next) fun store => act store >>= then_ := by
  intro store
  simp only [EStateM.run_bind]
  rcases first store with ⟨cause, after, broken, ran⟩ | ⟨error, after, failed, ran⟩ |
    ⟨after, acted, ran⟩
  · exact .inl ⟨cause, after, broken, by rw [ran]⟩
  · exact .inr (.inl ⟨error, after, by rw [failed]; rfl, by rw [ran]⟩)
  · rw [acted, ran]
    exact second after

theorem Follows.forM {α : Type} {program : α → Writing σ Unit} {act : σ → α → Except StoreError σ}
    (each : ∀ item, Follows breaks (program item) fun store => act store item) (items : List α) :
    Follows breaks (forM items program) fun store => items.foldlM act store := by
  induction items with
  | nil => exact .pure
  | cons item rest induction =>
      simp only [List.forM_cons, List.foldlM_cons]
      exact (each item).seq induction

/-- A transaction breaks off without having written anything, or is carried out at once. -/
theorem Follows.transaction (follows : Follows breaks program act) (store : σ) :
    (∃ cause, breaks cause ∧ (transaction program).run store = .error .brokenOff store) ∨
      (transaction program).run store = (atOnce act).run store := by
  have run_eq : (Writing.transaction program).run store =
      match program.run store with
      | .ok () after => .ok () after
      | .error error _ => .error error store := rfl
  rw [run_eq, run_atOnce]
  rcases follows store with ⟨cause, after, broken, ran⟩ | ⟨error, after, failed, ran⟩ |
    ⟨after, acted, ran⟩
  · exact .inl ⟨cause, broken, by rw [ran]⟩
  · exact .inr (by rw [failed, ran])
  · exact .inr (by rw [acted, ran])

end Writing

namespace MemoryStore

/-- Refuse a snapshot that is not newer than the stored history of its node. -/
def refuseStale (snapshot : Snapshot) : Writing MemoryStore Unit := do
  let store ← get
  if snapshot.version ≤ store.latestVersion snapshot.id then
    throw (.staleSnapshot snapshot.id snapshot.version (store.latestVersion snapshot.id))

/-- Put a snapshot in front of the others. -/
def push (snapshot : Snapshot) : Writing MemoryStore Unit :=
  modify fun store => { store with snapshots := snapshot :: store.snapshots }

/-- Store a commit step by step. -/
def write (commit : Commit) : Writing MemoryStore Unit := do
  if (← get).commits.contains commit.id then throw (.duplicateCommit commit.id)
  forM commit.snapshots refuseStale
  modify fun store => { store with commits := store.commits.put commit.metadata }
  forM commit.snapshots push

/-- Looking at snapshots writes nothing, and the first one that is stale is refused. -/
theorem run_forM_refuseStale (snapshots : List Snapshot) (store : MemoryStore) :
    (forM snapshots refuseStale).run store =
      match store.stale? snapshots with
      | none => .ok () store
      | some snapshot =>
        .error (.staleSnapshot snapshot.id snapshot.version (store.latestVersion snapshot.id))
          store := by
  induction snapshots with
  | nil => rfl
  | cons snapshot rest induction =>
      rw [stale?, List.find?_cons, List.forM_cons, EStateM.run_bind]
      by_cases stale : snapshot.version ≤ store.latestVersion snapshot.id
      · simp [refuseStale, stale]
      · simp only [refuseStale, stale, decide_false, EStateM.run_bind, EStateM.run_get, if_false,
          EStateM.run_pure]
        exact induction

/-- Pushed snapshots come to lie in front of the others, the last one first. -/
theorem run_forM_push (snapshots : List Snapshot) (store : MemoryStore) :
    (forM snapshots push).run store =
      .ok () { store with snapshots := snapshots.reverse ++ store.snapshots } := by
  induction snapshots generalizing store with
  | nil => rfl
  | cons snapshot rest induction =>
      rw [List.forM_cons, EStateM.run_bind, List.reverse_cons, List.append_assoc]
      exact induction _

/-- Storing a commit step by step is storing it at once. -/
theorem write_eq (commit : Commit) :
    write commit = .atOnce fun store => store.persist commit := by
  funext store
  change (write commit).run store = _
  by_cases taken : store.commits.contains commit.id
  · simp [write, Writing.atOnce, persist, taken]
  · simp only [write, Writing.atOnce, persist, taken, EStateM.run_bind, EStateM.run_get,
      EStateM.run_modify, if_false, run_forM_refuseStale, run_forM_push, Bool.false_eq_true]
    cases store.stale? commit.snapshots <;> rfl

end MemoryStore

namespace RowStore

/-- Insert the row of a commit. -/
def insertCommit (row : CommitRow) : Writing RowStore Unit :=
  modify fun store => { store with commits := store.commits ++ [row] }

/-- Insert the row of a snapshot, which may conflict with none. -/
def insertSnapshot (row : SnapshotRow) : Writing RowStore Unit := do
  let store ← get
  if store.snapshots.any row.conflicts then throw .conflictingRow
  set { store with snapshots := store.snapshots ++ [row] }

/-- The statements that store a commit.  The last one ends the transaction. -/
def statements (breaks : RowStore → Bool) (commit : Commit) : Writing RowStore Unit := do
  Writing.statement breaks (insertCommit (.ofMetadata commit.metadata))
  forM (commit.snapshots.map (SnapshotRow.ofSnapshot commit.id)) fun row =>
    Writing.statement breaks (insertSnapshot row)
  Writing.statement breaks (pure ())

/-- Store a commit step by step. -/
def write (breaks : RowStore → Bool) (commit : Commit) : Writing RowStore Unit := do
  if ((← get).commitRow? commit.id).isSome then throw (.duplicateCommit commit.id)
  Writing.transaction (statements breaks commit)

/-- The store with one more row, unless that conflicts with another one. -/
def withRow (store : RowStore) (row : SnapshotRow) : Except StoreError RowStore :=
  if store.snapshots.any row.conflicts then .error .conflictingRow
  else .ok { store with snapshots := store.snapshots ++ [row] }

theorem follows_insertSnapshot (breaks : RowStore → Bool) (row : SnapshotRow) :
    Writing.Follows breaks (insertSnapshot row) fun store => store.withRow row := by
  intro store
  by_cases conflict : store.snapshots.any row.conflicts
  · refine .inr (.inl ⟨.conflictingRow, store, if_pos conflict, ?_⟩)
    simp only [insertSnapshot, EStateM.run_bind, EStateM.run_get, conflict, if_true,
      EStateM.run_throw]
  · refine .inr (.inr ⟨_, if_neg conflict, ?_⟩)
    simp only [insertSnapshot, EStateM.run_bind, EStateM.run_get, conflict, if_false,
      Bool.false_eq_true, EStateM.run_set]

/-- Adding rows one by one is appending them. -/
theorem foldlM_withRow (rows : List SnapshotRow) (store : RowStore) :
    rows.foldlM withRow store =
      (append store.snapshots rows).map fun snapshots => { store with snapshots } := by
  induction rows generalizing store with
  | nil => rfl
  | cons row rest induction =>
      rw [List.foldlM_cons, append, withRow]
      split
      · rfl
      · exact induction _

/-- The statements insert the row of a commit and append the rows of its snapshots. -/
theorem follows_statements (breaks : RowStore → Bool) (commit : Commit) :
    Writing.Follows breaks (statements breaks commit) fun store =>
      (append store.snapshots (commit.snapshots.map (SnapshotRow.ofSnapshot commit.id))).map
        fun snapshots => ⟨store.commits ++ [.ofMetadata commit.metadata], snapshots⟩ := by
  have rows := Writing.Follows.forM (fun row => (follows_insertSnapshot breaks row).statement)
    (commit.snapshots.map (SnapshotRow.ofSnapshot commit.id))
  refine ((Writing.Follows.modify _).statement.seq
    (rows.seq Writing.Follows.pure.statement)).congr fun store => ?_
  change (List.foldlM _ _ _ >>= Except.ok) = _
  rw [foldlM_withRow]
  cases append store.snapshots (commit.snapshots.map (SnapshotRow.ofSnapshot commit.id)) <;> rfl

theorem persist_of_fresh {store : RowStore} {commit : Commit}
    (fresh : ¬ (store.commitRow? commit.id).isSome) :
    store.persist commit =
      (append store.snapshots (commit.snapshots.map (SnapshotRow.ofSnapshot commit.id))).map
        fun snapshots => ⟨store.commits ++ [.ofMetadata commit.metadata], snapshots⟩ := by
  rw [persist, if_neg fresh]
  cases append store.snapshots (commit.snapshots.map (SnapshotRow.ofSnapshot commit.id)) <;> rfl

/-- Storing a commit statement by statement breaks off without having written anything, or comes to
storing it at once. -/
theorem write_cases (breaks : RowStore → Bool) (commit : Commit) (store : RowStore) :
    (∃ cause, breaks cause ∧ (write breaks commit).run store = .error .brokenOff store) ∨
      (write breaks commit).run store =
        (Writing.atOnce fun store => store.persist commit).run store := by
  by_cases taken : (store.commitRow? commit.id).isSome
  · right
    have refused : store.persist commit = .error (.duplicateCommit commit.id) := if_pos taken
    simp only [write, EStateM.run_bind, EStateM.run_get, taken, if_true, EStateM.run_throw,
      Writing.run_atOnce, refused]
  · have transaction := (follows_statements breaks commit).transaction store
    simp only [write, EStateM.run_bind, EStateM.run_get, taken, if_false, Bool.false_eq_true]
    rw [Writing.run_atOnce, ← persist_of_fresh taken] at transaction
    exact transaction

end RowStore

namespace Backend

/-- Store a commit step by step. -/
def write (breaks : RowStore → Bool) (commit : Commit) : Writing Backend Unit
  | memory store =>
    match (MemoryStore.write commit).run store with
    | .ok () after => .ok () (memory after)
    | .error error after => .error error (memory after)
  | rows store =>
    match (RowStore.write breaks commit).run store with
    | .ok () after => .ok () (rows after)
    | .error error after => .error error (rows after)
  | unwritable store => .error .brokenOff (unwritable store)

/-- Storing a commit step by step breaks off without having written anything, or comes to storing it
at once. -/
theorem write_cases (breaks : RowStore → Bool) (commit : Commit) (backend : Backend) :
    (∃ cause, breaks cause ∧ (write breaks commit).run backend = .error .brokenOff backend) ∨
      (write breaks commit).run backend =
        (Writing.atOnce fun backend => backend.persist commit).run backend := by
  cases backend with
  | memory store =>
      right
      have ran : (write breaks commit).run (memory store) =
          match (MemoryStore.write commit).run store with
          | .ok () after => .ok () (memory after)
          | .error error after => .error error (memory after) := rfl
      rw [ran, MemoryStore.write_eq, Writing.run_atOnce, Writing.run_atOnce, persist]
      cases store.persist commit <;> rfl
  | rows store =>
      have ran : (write breaks commit).run (rows store) =
          match (RowStore.write breaks commit).run store with
          | .ok () after => .ok () (rows after)
          | .error error after => .error error (rows after) := rfl
      rw [ran, Writing.run_atOnce, persist]
      rcases RowStore.write_cases breaks commit store with ⟨cause, broken, off⟩ | atOnce
      · exact .inl ⟨cause, broken, by rw [off]⟩
      · right
        rw [atOnce, Writing.run_atOnce]
        cases store.persist commit <;> rfl
  | unwritable store => exact .inr rfl

/-- Where nothing breaks off, storing a commit step by step is storing it at once. -/
theorem write_eq (commit : Commit) :
    write (fun _ => false) commit = .atOnce fun backend => backend.persist commit := by
  funext backend
  rcases write_cases (fun _ => false) commit backend with ⟨_, broken, -⟩ | atOnce
  · cases broken
  · exact atOnce

end Backend
end AuditTrail
