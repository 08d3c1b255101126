import AuditTrail.Proofs.Journal.Latest

/-!
# Referential integrity

A recording ends the value objects that captured nodes used to reach and that are no longer
captured, whoever else refers to them.  So the value objects that live entities refer to stay live
exactly as long as every entity that refers to a dropped one is recorded anew along with it.
-/

namespace AuditTrail

open Schema Comparison

section Definitions

variable {σ : Type} [Store σ]

/-- Every value object that a live entity refers to is live. -/
def Store.Integral (store : σ) : Prop :=
  ∀ owner snapshot, Store.live? store owner .latest = .ok (some snapshot) → ¬ owner.isValueObject →
    ∀ target ∈ snapshot.valueObjects, ∃ live, Store.live? store target .latest = .ok (some live)

/-- Each entity that refers to a value object that a recording drops is captured and has changed. -/
def Commit.Spares (types : TypeTable) (alignment : Alignment) (store : σ) (current : Graph) :
    Prop :=
  ∀ owner snapshot, Store.live? store owner .latest = .ok (some snapshot) → ¬ owner.isValueObject →
    ∀ target ∈ snapshot.valueObjects, Store.Reaches store current.ids target →
      target ∉ current.ids → ∃ node, current.find? owner = some node ∧
        compareNodes types alignment (some snapshot.node) (some node) ≠ []

/-- No other entity refers to what goes away with a node. -/
def Commit.SparesAtEnd (store : σ) (id : GlobalId) : Prop :=
  ∀ owner snapshot, Store.live? store owner .latest = .ok (some snapshot) → ¬ owner.isValueObject →
    ∀ target ∈ snapshot.valueObjects, Store.Reaches store [id] target → owner = id

/-- No entity is left referring to what an operation ends. -/
def Journal.Spares (journal : Journal σ) : Journal.Operation → Prop
  | .commit _ _ _ heap roots => ∀ current, journal.capture heap roots = .ok current →
      Commit.Spares journal.types journal.settings.alignment journal.store current
  | .delete _ _ id => Commit.SparesAtEnd journal.store id
  | .deleteObject _ _ heap slot => ∀ id, journal.idOf heap slot = .ok id →
      Commit.SparesAtEnd journal.store id
  | .reopen _ => True

end Definitions

section Effects

variable {σ : Type} [Store σ] {contract : Store.Contract σ} {store : σ} {log : CommitLog}
  {commit : Commit} {types : TypeTable} {alignment : Alignment} {current : Graph}
  {id owner target : GlobalId} {snapshot : Snapshot}

/-- Every value object that a live entity refers to is live, as far as a log tells. -/
def CommitLog.Integral (log : CommitLog) : Prop :=
  ∀ owner snapshot, log.live? owner = some snapshot → ¬ owner.isValueObject →
    ∀ target ∈ snapshot.valueObjects, (log.live? target).isSome

theorem integral_iff (holds : contract.Holds store log) :
    Store.Integral store ↔ log.Integral := by
  simp only [Store.Integral, CommitLog.Integral, contract.live?_iff holds,
    Option.isSome_iff_exists]

theorem mem_references_of_mem_valueObjects (refers : target ∈ snapshot.valueObjects) :
    target ∈ snapshot.state.references := by
  unfold Snapshot.valueObjects at refers
  split at refers
  · cases refers
  · exact (List.mem_filter.mp refers).1

/-- An entity is reached only if it is given. -/
theorem mem_of_reaches {seeds : List GlobalId} (reached : Store.Reaches store seeds owner)
    (entity : ¬ owner.isValueObject) : owner ∈ seeds :=
  by_contra fun absent => entity (reached.isValueObject absent)

/-- Captured nodes are live after their recording. -/
theorem isSome_live?_of_mem_ids (holds : contract.Holds store log)
    (extends_log : commit.Extends log)
    (consists : commit.ConsistsOf (Commit.Due types alignment store current))
    (member : target ∈ current.ids) : (CommitLog.live? (commit :: log) target).isSome := by
  obtain ⟨node, captured⟩ := Option.isSome_iff_exists.mp (Graph.mem_ids_iff.mp member)
  obtain ⟨after, live, -⟩ := live?_of_captured holds extends_log consists captured
  exact Option.isSome_of_eq_some live

/-- A recording leaves live what was live and is captured or not reached. -/
theorem isSome_live?_of_kept (holds : contract.Holds store log)
    (extends_log : commit.Extends log)
    (consists : commit.ConsistsOf (Commit.Due types alignment store current))
    (live : (log.live? target).isSome)
    (kept : target ∈ current.ids ∨ ¬ Store.Reaches store current.ids target) :
    (CommitLog.live? (commit :: log) target).isSome := by
  by_cases captured : target ∈ current.ids
  · exact isSome_live?_of_mem_ids holds extends_log consists captured
  · obtain ⟨before, live_before⟩ := Option.isSome_iff_exists.mp live
    exact Option.isSome_of_eq_some ((live?_of_uncaptured holds extends_log consists captured).mpr
      ⟨live_before, kept.resolve_left captured⟩)

/-- If a recording spares what entities refer to, an entity that stays as it was keeps it. -/
theorem isSome_live?_of_spares (holds : contract.Holds store log)
    (extends_log : commit.Extends log)
    (consists : commit.ConsistsOf (Commit.Due types alignment store current))
    (integral : log.Integral) (spares : Commit.Spares types alignment store current)
    (live : log.live? owner = some snapshot) (entity : ¬ owner.isValueObject)
    (refers : target ∈ snapshot.valueObjects)
    (unchanged : ∀ node, current.find? owner = some node →
      compareNodes types alignment (some snapshot.node) (some node) = []) :
    (CommitLog.live? (commit :: log) target).isSome := by
  have target_live := integral owner snapshot live entity target refers
  refine isSome_live?_of_kept holds extends_log consists target_live ?_
  by_contra lost
  rw [not_or, not_not] at lost
  obtain ⟨node, captured, differs⟩ := spares owner snapshot ((contract.live?_iff holds).mpr live)
    entity target refers lost.2 lost.1
  exact differs (unchanged node captured)

/-- If a recording keeps integrity, it does not drop what an unchanged entity refers to. -/
theorem exists_changed_of_integral (holds : contract.Holds store log)
    (extends_log : commit.Extends log)
    (consists : commit.ConsistsOf (Commit.Due types alignment store current))
    (kept : CommitLog.Integral (commit :: log)) (live : log.live? owner = some snapshot)
    (entity : ¬ owner.isValueObject) (refers : target ∈ snapshot.valueObjects)
    (reached : Store.Reaches store current.ids target) (dropped : target ∉ current.ids) :
    ∃ node, current.find? owner = some node ∧
      compareNodes types alignment (some snapshot.node) (some node) ≠ [] := by
  by_contra unchanged
  simp only [not_exists, not_and, not_not] at unchanged
  have live_after : CommitLog.live? (commit :: log) owner = some snapshot := by
    cases captured : current.find? owner with
    | some node => exact live?_of_unchanged holds consists captured live (unchanged node captured)
    | none =>
        have absent := notMem_ids_of_dropped captured
        exact (live?_of_uncaptured holds extends_log consists absent).mpr
          ⟨live, fun reached => absent (mem_of_reaches reached entity)⟩
  obtain ⟨after, target_live⟩ :=
    Option.isSome_iff_exists.mp (kept owner snapshot live_after entity target refers)
  exact ((live?_of_uncaptured holds extends_log consists dropped).mp target_live).2 reached

/-- A recording keeps integrity exactly if it spares what entities refer to. -/
theorem integral_recording_iff (holds : contract.Holds store log)
    (extends_log : commit.Extends log)
    (consists : commit.ConsistsOf (Commit.Due types alignment store current))
    (closed : current.Closed) (integral : log.Integral) :
    CommitLog.Integral (commit :: log) ↔ Commit.Spares types alignment store current := by
  constructor
  · intro kept owner snapshot answered entity target refers reached dropped
    exact exists_changed_of_integral holds extends_log consists kept
      ((contract.live?_iff holds).mp answered) entity refers reached dropped
  · intro spares owner snapshot live entity target refers
    cases captured : current.find? owner with
    | none =>
        have absent := notMem_ids_of_dropped captured
        have before := ((live?_of_uncaptured holds extends_log consists absent).mp live).1
        refine isSome_live?_of_spares holds extends_log consists integral spares before entity
          refers fun node found => ?_
        cases captured.symm.trans found
    | some node =>
        obtain ⟨after, live_after, stands⟩ :=
          live?_of_captured holds extends_log consists captured
        obtain rfl : snapshot = after := Option.some.inj (live.symm.trans live_after)
        rcases stands with recorded | ⟨before, same⟩
        · refine isSome_live?_of_mem_ids holds extends_log consists ?_
          refine closed node (Graph.mem_rows_of_find? captured) target ?_
          rw [← recorded]
          exact mem_references_of_mem_valueObjects refers
        · refine isSome_live?_of_spares holds extends_log consists integral spares before entity
            refers fun other found => ?_
          rwa [← Option.some.inj (captured.symm.trans found)]

/-- Ending a node keeps integrity exactly if no other entity refers to what goes away. -/
theorem integral_terminating_iff (holds : contract.Holds store log)
    (extends_log : commit.Extends log) (consists : commit.ConsistsOf (Commit.DueAtEnd store id))
    (integral : log.Integral) :
    CommitLog.Integral (commit :: log) ↔ Commit.SparesAtEnd store id := by
  have live_iff (target : GlobalId) (snapshot : Snapshot) :
      CommitLog.live? (commit :: log) target = some snapshot ↔
        log.live? target = some snapshot ∧ ¬ Store.Reaches store [id] target :=
    live?_of_terminating holds extends_log consists
  simp only [Commit.SparesAtEnd, CommitLog.Integral, contract.live?_iff holds,
    Option.isSome_iff_exists, live_iff]
  constructor
  · intro kept owner snapshot live entity target refers reached
    by_contra other
    have unreached (owner_reached : Store.Reaches store [id] owner) : False :=
      other (List.mem_singleton.mp (mem_of_reaches owner_reached entity))
    obtain ⟨-, -, target_unreached⟩ :=
      kept owner snapshot ⟨live, unreached⟩ entity target refers
    exact target_unreached reached
  · rintro spares owner snapshot ⟨live, unreached⟩ entity target refers
    obtain ⟨before, target_live⟩ :=
      Option.isSome_iff_exists.mp (integral owner snapshot live entity target refers)
    refine ⟨before, target_live, fun reached => unreached ?_⟩
    rw [spares owner snapshot live entity target refers reached]
    exact .seed (List.mem_singleton_self id)

end Effects

namespace Journal

variable {σ : Type} [Store σ] (contract : Store.Contract σ) {journal : Journal σ}
  {log : CommitLog} {operation : Operation}

/-- An operation keeps integrity exactly if it stores nothing or spares what entities refer to. -/
theorem integral_step_iff (holds : contract.Holds journal.store log)
    (fits : ∀ commit ∈ (journal.step operation).1, contract.Fits commit)
    (integral : Store.Integral journal.store) :
    Store.Integral (journal.step operation).2.store ↔
      ((journal.step operation).1.isSome → journal.Spares operation) := by
  have next := holds_step contract holds operation fits
  rw [integral_iff holds] at integral
  rw [integral_iff next]
  cases stored : (journal.step operation).1 with
  | none => simpa using integral
  | some commit =>
      have extends_log := extends_of_step contract holds stored
      obtain ⟨due, records, consists⟩ := step_records contract holds stored
      simp only [Option.toList_some, List.singleton_append, Option.isSome_some, forall_const]
      generalize commit.metadata = metadata at records
      cases records with
      | @commit _ _ _ heap roots current captured =>
          rw [integral_recording_iff holds extends_log consists (capture_spec captured).1
            integral]
          refine ⟨fun spares other found => ?_, fun spares => spares current captured⟩
          rwa [← Except.ok.inj (captured.symm.trans found)]
      | delete => exact integral_terminating_iff holds extends_log consists integral
      | @deleteObject _ _ _ _ id named =>
          rw [integral_terminating_iff holds extends_log consists integral]
          refine ⟨fun spares other found => ?_, fun spares => spares id named⟩
          rwa [← Except.ok.inj (named.symm.trans found)]

/-- From a store with integrity, a run keeps it throughout exactly if all its operations do. -/
theorem integral_run_iff (holds : contract.Holds journal.store log)
    (integral : Store.Integral journal.store) {operations : List Operation}
    (fits : ∀ commit ∈ (journal.run operations).1, contract.Fits commit) :
    (∀ before, before <+: operations → Store.Integral (journal.run before).2.store) ↔
      ∀ before operation, before ++ [operation] <+: operations →
        ((journal.run before).2.step operation).1.isSome →
        (journal.run before).2.Spares operation := by
  induction operations generalizing journal log with
  | nil =>
      refine iff_of_true (fun before begins => ?_) fun before operation begins => ?_
      · rw [List.prefix_nil.mp begins]
        exact integral
      · simp at begins
  | cons operation rest induction =>
      rw [run_cons] at fits
      have fits_first : ∀ commit ∈ (journal.step operation).1, contract.Fits commit :=
        fun commit member => fits commit (List.mem_append_left _ (Option.mem_toList.mpr member))
      have first := integral_step_iff contract holds fits_first integral
      have rest_iff (next : Store.Integral (journal.step operation).2.store) :=
        induction (holds_step contract holds operation fits_first) next
          fun commit member => fits commit (List.mem_append_right _ member)
      constructor
      · intro kept before other begins
        have next : Store.Integral (journal.step operation).2.store :=
          kept [operation] (List.prefix_append [operation] rest)
        cases before with
        | nil =>
            obtain rfl : other = operation := (List.cons_prefix_cons.mp begins).1
            exact first.mp next
        | cons head before =>
            obtain ⟨rfl, continues⟩ := List.cons_prefix_cons.mp begins
            refine (rest_iff next).mp (fun taken taken_begins => ?_) before other continues
            exact kept (head :: taken) (List.cons_prefix_cons.mpr ⟨rfl, taken_begins⟩)
      · intro spares before begins
        have next : Store.Integral (journal.step operation).2.store :=
          first.mpr (spares [] operation (List.prefix_append [operation] rest))
        cases before with
        | nil => exact integral
        | cons head before =>
            obtain ⟨rfl, continues⟩ := List.cons_prefix_cons.mp begins
            refine (rest_iff next).mpr (fun taken other taken_begins => ?_) before continues
            exact spares (head :: taken) other (List.cons_prefix_cons.mpr ⟨rfl, taken_begins⟩)

/-- Nothing is live at first. -/
theorem integral_of_holds_nil (holds : contract.Holds journal.store []) :
    Store.Integral journal.store := by
  rw [integral_iff holds]
  intro owner snapshot live
  cases live

/-- In a run from an empty store, the value objects that live entities refer to are live after every
operation exactly if every operation that stores a commit leaves no entity referring to what it
ends. -/
theorem run_integral_iff {plan : JournalPlan} (opened : start plan contract.empty = .ok journal)
    {operations : List Operation}
    (fits : ∀ commit ∈ (journal.run operations).1, contract.Fits commit) :
    (∀ before, before <+: operations → Store.Integral (journal.run before).2.store) ↔
      ∀ before operation, before ++ [operation] <+: operations →
        ((journal.run before).2.step operation).1.isSome →
        (journal.run before).2.Spares operation := by
  have holds := (recorded_of_start contract opened).holds
  exact integral_run_iff contract holds (integral_of_holds_nil contract holds) fits

/-- If there is one entity only, no other one refers to what goes away with it. -/
theorem sparesAtEnd_of_only {store : MemoryStore} {id : GlobalId}
    (only : ∀ snapshot ∈ store.snapshots, ¬ snapshot.id.isValueObject → snapshot.id = id) :
    Commit.SparesAtEnd store id := by
  intro owner snapshot live entity target refers reached
  obtain ⟨stored, rfl, -⟩ := MemoryStore.mem_of_live? live
  exact only snapshot stored entity

/-- An entity is recorded with its address and goes away together with it. -/
theorem run_integral_iff_ended :
    let user : Definition :=
      .entity ⟨"User", none, [⟨"id", .named "int", true, false⟩,
        ⟨"home", .named "Address", false, false⟩], []⟩ none
    let address : Definition :=
      .valueObject ⟨"Address", none, [⟨"street", .named "string", false, false⟩], []⟩
    let plan : JournalPlan := ⟨[user, address], {}⟩
    let housed : Heap :=
      ⟨[.ofList "User" [("id", .scalar (.int 1)), ("home", .ref 1)],
        .ofList "Address" [("street", .scalar (.text "Main"))]]⟩
    let id : GlobalId := .entity "User" (.int 1)
    let operations : List Operation :=
      [.commit ⟨0, 0⟩ "ann" .empty housed [0], .delete ⟨1, 0⟩ "ann" id]
    ∃ journal : Journal MemoryStore, start plan MemoryStore.contract.empty = .ok journal ∧
      (journal.run operations).1.map (fun commit => commit.snapshots.map (·.kind)) =
        [[.initial, .initial], [.terminal, .terminal]] ∧
      ∀ before, before <+: operations → Store.Integral (journal.run before).2.store := by
  intro user address plan housed id operations
  refine ⟨_, rfl, by decide +kernel, ?_⟩
  refine (run_integral_iff MemoryStore.contract
    (show start plan MemoryStore.contract.empty = .ok _ from rfl) fun _ _ => trivial).mpr ?_
  intro before operation begins _
  match before, begins with
  | [], begins =>
      obtain rfl := (List.cons_prefix_cons.mp begins).1
      intro current captured owner snapshot live
      exact absurd (MemoryStore.mem_of_live? live).1 List.not_mem_nil
  | [first], begins =>
      obtain ⟨rfl, continues⟩ := List.cons_prefix_cons.mp begins
      obtain rfl := (List.cons_prefix_cons.mp continues).1
      exact sparesAtEnd_of_only (by decide +kernel)
  | first :: second :: more, begins =>
      have short := begins.length_le
      simp [operations] at short

/-- Two entities share an address, which goes by the name of the second.  Recording the first one
alone ends the address, since it is not captured by that name, and the second is left without it. -/
theorem not_integral_run_shared :
    let user : Definition :=
      .entity ⟨"User", none, [⟨"id", .named "int", true, false⟩,
        ⟨"home", .named "Address", false, false⟩], []⟩ none
    let address : Definition :=
      .valueObject ⟨"Address", none, [⟨"street", .named "string", false, false⟩], []⟩
    let plan : JournalPlan := ⟨[user, address], {}⟩
    let shared : Heap :=
      ⟨[.ofList "User" [("id", .scalar (.int 1)), ("home", .ref 2)],
        .ofList "User" [("id", .scalar (.int 2)), ("home", .ref 2)],
        .ofList "Address" [("street", .scalar (.text "Main"))]]⟩
    ∃ journal : Journal MemoryStore, start plan MemoryStore.contract.empty = .ok journal ∧
      let final := (journal.run [.commit ⟨0, 0⟩ "ann" .empty shared [0, 1],
        .commit ⟨1, 0⟩ "ann" .empty shared [0]]).2
      ¬ Store.Integral final.store := by
  intro user address plan shared
  refine ⟨_, rfl, ?_⟩
  intro final integral
  have found : (Store.live? final.store (.entity "User" (.int 2)) .latest).toOption.isSome := by
    decide +kernel
  obtain ⟨answer, answered⟩ := exists_of_toOption found
  have refers : ∀ answer ∈ (Store.live? final.store (.entity "User" (.int 2)) .latest).toOption,
      ∃ snapshot ∈ answer, .owned (.entity "User" (.int 2)) "home" ∈ snapshot.valueObjects := by
    decide +kernel
  obtain ⟨snapshot, live, member⟩ := refers answer (mem_toOption answered)
  rw [Option.mem_def.mp live] at answered
  obtain ⟨after, target_live⟩ := integral _ snapshot answered Bool.false_ne_true _ member
  have ended : ∀ answer ∈ (Store.live? final.store (.owned (.entity "User" (.int 2)) "home")
      .latest).toOption, answer.isNone := by decide +kernel
  cases ended _ (mem_toOption target_live)

end Journal
end AuditTrail
