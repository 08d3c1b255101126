import AuditTrail.Proofs.Store.Contract
import AuditTrail.Proofs.Table

/-!
# Closures under value objects

The worklist that loads newest snapshots ends with exactly the stored nodes that the given ids reach
through value objects.  It runs out of ids before it runs out of room, since every round loads
another node and each of them has a snapshot of its own.
-/

namespace AuditTrail

/-- The ids that are reached from given ones through value objects in newest live snapshots. -/
inductive Store.Reaches {σ : Type} [Store σ] (store : σ) (seeds : List GlobalId) : GlobalId → Prop
  | seed {id} (member : id ∈ seeds) : Reaches store seeds id
  | step {owner target snapshot} (reached : Reaches store seeds owner)
      (found : Store.latest? store owner = .ok (some snapshot))
      (refers : target ∈ snapshot.valueObjects) : Reaches store seeds target

theorem Snapshot.isValueObject_of_mem {snapshot : Snapshot} {id : GlobalId}
    (refers : id ∈ snapshot.valueObjects) : id.isValueObject := by
  unfold valueObjects at refers
  split at refers
  next => cases refers
  next => exact (List.mem_filter.mp refers).2

namespace Assembly

variable {σ : Type} [Store σ] (contract : Store.Contract σ) {store : σ} {log : CommitLog}
  {seeds : List GlobalId} {loaded : LatestSnapshots} {pending : List GlobalId}

/-- An id is loaded, waits, or has no snapshot. -/
def Covered (log : CommitLog) (loaded : LatestSnapshots) (pending : List GlobalId)
    (id : GlobalId) : Prop :=
  id ∈ loaded.keys ∨ id ∈ pending ∨ log.latest? id = none

/-- What every round of loading preserves. -/
structure Loading (store : σ) (log : CommitLog) (seeds : List GlobalId)
    (loaded : LatestSnapshots) (pending : List GlobalId) : Prop where
  /-- Newest snapshots are loaded. -/
  current : ∀ snapshot ∈ loaded.rows, log.latest? snapshot.id = some snapshot
  /-- Only reached nodes are loaded. -/
  reached : ∀ snapshot ∈ loaded.rows, Store.Reaches store seeds snapshot.id
  /-- Only reached nodes wait. -/
  waiting : ∀ id ∈ pending, Store.Reaches store seeds id
  /-- Every given id is covered. -/
  seeded : ∀ id ∈ seeds, Covered log loaded pending id
  /-- Everything that a loaded snapshot refers to is covered. -/
  followed : ∀ snapshot ∈ loaded.rows, ∀ id ∈ snapshot.valueObjects,
    Covered log loaded pending id

/-- The first stored id that waits ends what can be skipped; if there is none, all can. -/
theorem firstStored_spec (holds : contract.Holds store log) (loaded : LatestSnapshots)
    (pending : List GlobalId) :
    (firstStored store loaded pending = .ok none ∧
      ∀ id ∈ pending, id ∈ loaded.keys ∨ log.latest? id = none) ∨
    ∃ skipped snapshot rest,
      firstStored store loaded pending = .ok (some (snapshot, rest)) ∧
        pending = skipped ++ snapshot.id :: rest ∧
        (∀ id ∈ skipped, id ∈ loaded.keys ∨ log.latest? id = none) ∧
        snapshot.id ∉ loaded.keys ∧ log.latest? snapshot.id = some snapshot := by
  induction pending with
  | nil => exact .inl ⟨rfl, fun _ member => (nomatch member)⟩
  | cons head pending induction =>
      have skip (settled : head ∈ loaded.keys ∨ log.latest? head = none)
          (same : firstStored store loaded (head :: pending) =
            firstStored store loaded pending) :
          (firstStored store loaded (head :: pending) = .ok none ∧
            ∀ id ∈ head :: pending, id ∈ loaded.keys ∨ log.latest? id = none) ∨
          ∃ skipped snapshot rest,
            firstStored store loaded (head :: pending) = .ok (some (snapshot, rest)) ∧
              head :: pending = skipped ++ snapshot.id :: rest ∧
              (∀ id ∈ skipped, id ∈ loaded.keys ∨ log.latest? id = none) ∧
              snapshot.id ∉ loaded.keys ∧ log.latest? snapshot.id = some snapshot := by
        rw [same]
        rcases induction with ⟨nothing, all⟩ | ⟨skipped, snapshot, rest, found, split, all, new⟩
        · exact .inl ⟨nothing, List.forall_mem_cons.mpr ⟨settled, all⟩⟩
        · exact .inr ⟨head :: skipped, snapshot, rest, found, by rw [split, List.cons_append],
            List.forall_mem_cons.mpr ⟨settled, all⟩, new⟩
      by_cases known : head ∈ loaded.keys
      · apply skip (.inl known)
        rw [firstStored, if_pos]
        rwa [Table.contains_eq, Table.isSome_find?_iff]
      · have unknown : ¬ loaded.contains head := by
          rwa [Table.contains_eq, Table.isSome_find?_iff]
        cases latest : log.latest? head with
        | none =>
            apply skip (.inr latest)
            rw [firstStored, if_neg unknown, contract.latest?_eq holds, latest]
            rfl
        | some snapshot =>
            have named := CommitLog.id_of_latest? latest
            refine .inr ⟨[], snapshot, pending, ?_, by rw [named, List.nil_append],
              fun _ member => (nomatch member), by rwa [named], by rwa [named]⟩
            rw [firstStored, if_neg unknown, contract.latest?_eq holds, latest]
            rfl

theorem Covered.skip {skipped rest : List GlobalId} {snapshot : Snapshot} {id : GlobalId}
    (covered : Covered log loaded (skipped ++ snapshot.id :: rest) id)
    (settled : ∀ id ∈ skipped, id ∈ loaded.keys ∨ log.latest? id = none)
    (more : List GlobalId) : Covered log (loaded.put snapshot) (more ++ rest) id := by
  rcases covered with known | waits | absent
  · exact .inl (Table.mem_keys_put_iff.mpr (.inr known))
  · rcases List.mem_append.mp waits with skipped | waits
    · rcases settled id skipped with known | absent
      · exact .inl (Table.mem_keys_put_iff.mpr (.inr known))
      · exact .inr (.inr absent)
    · rcases List.mem_cons.mp waits with rfl | waits
      · exact .inl (Table.mem_keys_put_iff.mpr (.inl rfl))
      · exact .inr (.inl (List.mem_append_right more waits))
  · exact .inr (.inr absent)

/-- Loading one more snapshot keeps the invariant. -/
theorem Loading.step {skipped rest : List GlobalId} {snapshot : Snapshot}
    (holds : contract.Holds store log)
    (loading : Loading store log seeds loaded (skipped ++ snapshot.id :: rest))
    (settled : ∀ id ∈ skipped, id ∈ loaded.keys ∨ log.latest? id = none)
    (latest : log.latest? snapshot.id = some snapshot) :
    Loading store log seeds (loaded.put snapshot) (snapshot.valueObjects.reverse ++ rest) := by
  have reached : Store.Reaches store seeds snapshot.id :=
    loading.waiting _ (List.mem_append_right skipped List.mem_cons_self)
  refine ⟨fun other member => ?_, fun other member => ?_, fun id member => ?_,
    fun id member => (loading.seeded id member).skip settled _, fun other member id refers => ?_⟩
  · rcases Table.mem_put_iff.mp member with rfl | ⟨member, -⟩
    · exact latest
    · exact loading.current other member
  · rcases Table.mem_put_iff.mp member with rfl | ⟨member, -⟩
    · exact reached
    · exact loading.reached other member
  · rcases List.mem_append.mp member with refers | member
    · refine .step reached ?_ (List.mem_reverse.mp refers)
      rw [contract.latest?_eq holds, latest]
    · exact loading.waiting id (List.mem_append_right skipped (List.mem_cons_of_mem _ member))
  · rcases Table.mem_put_iff.mp member with rfl | ⟨member, -⟩
    · exact .inr (.inl (List.mem_append_left rest (List.mem_reverse.mpr refers)))
    · exact (loading.followed other member id refers).skip settled _

/-- If everything that waits can be skipped, nothing needs to wait. -/
theorem Loading.finish (loading : Loading store log seeds loaded pending)
    (settled : ∀ id ∈ pending, id ∈ loaded.keys ∨ log.latest? id = none) :
    Loading store log seeds loaded [] := by
  have covered {id : GlobalId} (covered : Covered log loaded pending id) :
      Covered log loaded [] id := by
    rcases covered with known | waits | absent
    · exact .inl known
    · exact (settled id waits).imp_right .inr
    · exact .inr (.inr absent)
  exact ⟨loading.current, loading.reached, fun _ member => (nomatch member),
    fun id member => covered (loading.seeded id member),
    fun snapshot member id refers => covered (loading.followed snapshot member id refers)⟩

theorem mem_snapshots_of_latest? {id : GlobalId} {snapshot : Snapshot}
    (latest : log.latest? id = some snapshot) : snapshot ∈ log.snapshots :=
  (List.mem_filter.mp (List.mem_of_mem_head? latest)).1

/-- As long as a stored node is missing, fewer snapshots are loaded than stored. -/
theorem Loading.size_lt (loading : Loading store log seeds loaded pending) {snapshot : Snapshot}
    (missing : snapshot.id ∉ loaded.keys) (latest : log.latest? snapshot.id = some snapshot) :
    loaded.size < log.snapshots.length := by
  have distinct : (snapshot :: loaded.rows).Nodup := by
    refine List.nodup_cons.mpr ⟨fun member => missing (List.mem_map_of_mem member), ?_⟩
    exact List.Nodup.of_map _ loaded.keys_nodup
  have stored : snapshot :: loaded.rows ⊆ log.snapshots := by
    intro other member
    rcases List.mem_cons.mp member with rfl | member
    · exact mem_snapshots_of_latest? latest
    · exact mem_snapshots_of_latest? (loading.current other member)
  exact (List.subperm_of_subset distinct stored).length_le

/-- With enough room, loading ends with nothing left to follow. -/
theorem load_spec (holds : contract.Holds store log) {room : Nat}
    (loading : Loading store log seeds loaded pending)
    (enough : log.snapshots.length ≤ room + loaded.size) :
    ∃ latest, load store room loaded pending = .ok latest ∧
      Loading store log seeds latest [] := by
  induction room generalizing loaded pending with
  | zero =>
      rcases firstStored_spec contract holds loaded pending with
        ⟨nothing, all⟩ | ⟨skipped, snapshot, rest, -, -, -, missing, latest⟩
      · refine ⟨loaded, by rw [load, nothing]; rfl, loading.finish all⟩
      · have short := loading.size_lt missing latest
        omega
  | succ room induction =>
      rcases firstStored_spec contract holds loaded pending with
        ⟨nothing, all⟩ | ⟨skipped, snapshot, rest, found, split, settled, missing, latest⟩
      · refine ⟨loaded, by rw [load, nothing]; rfl, loading.finish all⟩
      · rw [split] at loading
        have stepped := loading.step contract holds settled latest
        have grown := Table.size_put missing
        obtain ⟨final, loads, done⟩ := induction stepped (by omega)
        exact ⟨final, by rw [load, found]; exact loads, done⟩

theorem loading_start (store : σ) (log : CommitLog) (seeds : List GlobalId) :
    Loading store log seeds .empty seeds.reverse where
  current _ member := nomatch member
  reached _ member := nomatch member
  waiting _ member := .seed (List.mem_reverse.mp member)
  seeded _ member := .inr (.inl (List.mem_reverse.mpr member))
  followed _ member := nomatch member

/-- The newest snapshots of the reached ids that have one, and no others. -/
def Closed (store : σ) (log : CommitLog) (seeds : List GlobalId) (latest : LatestSnapshots) :
    Prop :=
  ∀ id snapshot, latest.find? id = some snapshot ↔
    Store.Reaches store seeds id ∧ log.latest? id = some snapshot

/-- What is found for a given id is its newest snapshot. -/
theorem Closed.find?_of_mem {latest : LatestSnapshots} (closed : Closed store log seeds latest)
    {id : GlobalId} (member : id ∈ seeds) : latest.find? id = log.latest? id :=
  Option.ext fun snapshot => (closed id snapshot).trans (and_iff_right (.seed member))

/-- A closure is found, and it is closed. -/
theorem closure_spec (holds : contract.Holds store log) (seeds : List GlobalId) :
    ∃ latest, closure store seeds = .ok latest ∧ Closed store log seeds latest := by
  have room : log.snapshots.length ≤
      Store.snapshotCount store + Table.size (.empty : LatestSnapshots) :=
    (contract.snapshotCount_eq holds).symm.le
  obtain ⟨latest, loads, done⟩ := load_spec contract holds (loading_start store log seeds) room
  refine ⟨latest, loads, fun id snapshot => ?_⟩
  have complete (reached : Store.Reaches store seeds id) :
      id ∈ latest.keys ∨ log.latest? id = none := by
    induction reached with
    | @seed id member =>
        exact (done.seeded id member).imp_right (Or.resolve_left · List.not_mem_nil)
    | @step owner target snapshot reached found refers induction =>
        rw [contract.latest?_eq holds, Except.ok.injEq] at found
        obtain ⟨row, row_mem, row_id⟩ :=
          List.mem_map.mp (induction.resolve_right (by simp [found]))
        have row_eq : row = snapshot := by
          have current := done.current row row_mem
          rw [row_id, found, Option.some.injEq] at current
          exact current.symm
        rw [row_eq] at row_mem
        exact (done.followed snapshot row_mem target refers).imp_right
          (Or.resolve_left · List.not_mem_nil)
  rw [Table.find?_eq_some_iff]
  constructor
  · rintro ⟨member, rfl⟩
    exact ⟨done.reached snapshot member, done.current snapshot member⟩
  · rintro ⟨reached, found⟩
    obtain ⟨row, row_mem, row_id⟩ :=
      List.mem_map.mp ((complete reached).resolve_right (by simp [found]))
    have current := done.current row row_mem
    rw [row_id, found, Option.some.injEq] at current
    rw [current]
    exact ⟨row_mem, row_id⟩

end Assembly
end AuditTrail
