import AuditTrail.Proofs.Journal.Latest
import AuditTrail.Proofs.Journal.Writes

/-!
# Independent recordings

A recording reads and writes only what its captured graph reaches.  If two captured graphs reach
nothing in common, neither recording reads what the other has written, so it finds the same newest
snapshots whether it comes first or second.  Both orders then leave the same histories, but for the
stamps of the commits.
-/

namespace AuditTrail

open Schema Assembly

/-- The snapshot without the metadata of the commit that wrote it. -/
def Snapshot.unstamped (snapshot : Snapshot) : Snapshot := { snapshot with commit := default }

/-- Which snapshots are called for does not depend on the metadata that they get. -/
theorem snapshotsFor_unstamped (types : TypeTable) (options : DiffOptions)
    (metadata metadata' : CommitMetadata) (latest : LatestSnapshots) (current : Graph) :
    (snapshotsFor types options metadata latest current).map Snapshot.unstamped =
      (snapshotsFor types options metadata' latest current).map Snapshot.unstamped := by
  rw [snapshotsFor, snapshotsFor, List.map_filterMap, List.map_filterMap]
  refine List.filterMap_congr fun group _ => ?_
  simp only [snapshotFor?]
  split
  next => simp only [Option.map_map]; rfl
  next =>
    simp only [Option.map_map]
    refine congrArg (fun write => (current.find? group.target).map write) (funext fun node => ?_)
    simp only [Function.comp_apply]
    split <;> rfl

section Reads

variable {σ : Type} [Store σ] (contract : Store.Contract σ) {store other : σ}
  {log later : CommitLog} {seeds : List GlobalId} {id : GlobalId}

/-- Where all that is reached has the same newest snapshots, the same is reached. -/
theorem Store.reaches_iff_of_latest?_eq
    (same : ∀ id, Store.Reaches store seeds id → Store.latest? other id = Store.latest? store id) :
    Store.Reaches other seeds id ↔ Store.Reaches store seeds id := by
  constructor
  · intro reached
    induction reached with
    | seed member => exact .seed member
    | step _ found refers induction => exact .step induction (same _ induction ▸ found) refers
  · intro reached
    induction reached with
    | seed member => exact .seed member
    | step owner_reached found refers induction =>
        exact .step induction ((same _ owner_reached).trans found) refers

/-- Ids that lead to none but themselves are all that is reached from among them. -/
theorem Store.Reaches.mem_of_closed {ids : List GlobalId} (given : ∀ id ∈ seeds, id ∈ ids)
    (closed : ∀ id ∈ ids, ∀ found ∈ (Store.latest? store id).toOption, ∀ snapshot ∈ found,
      ∀ target ∈ snapshot.valueObjects, target ∈ ids)
    (reached : Store.Reaches store seeds id) : id ∈ ids := by
  induction reached with
  | seed member => exact given _ member
  | step _ found refers induction =>
      exact closed _ induction _ (mem_toOption found) _ rfl _ refers

/-- Where all that is reached has the same newest snapshots, the same closure is loaded. -/
theorem closure_eq_of_latest?_eq (holds : contract.Holds store log)
    (holds_later : contract.Holds other later)
    (same : ∀ id, Store.Reaches store seeds id → later.latest? id = log.latest? id) :
    Assembly.closure other seeds = Assembly.closure store seeds := by
  obtain ⟨latest, loads, closed⟩ := closure_spec contract holds seeds
  obtain ⟨latest', loads', closed'⟩ := closure_spec contract holds_later seeds
  have reaches_iff (id : GlobalId) :
      Store.Reaches other seeds id ↔ Store.Reaches store seeds id :=
    Store.reaches_iff_of_latest?_eq fun id reached => by
      rw [contract.latest?_eq holds, contract.latest?_eq holds_later, same id reached]
  rw [loads, loads', Except.ok.injEq]
  refine Table.eq_of_find?_eq fun id => Option.ext fun snapshot => ?_
  rw [closed, closed', reaches_iff]
  exact and_congr_right fun reached => by rw [same id reached]

variable {types : TypeTable} {options : DiffOptions} {metadata metadata' : CommitMetadata}
  {current : Graph} {commit commit' : Commit}

/-- A recording writes only what its graph reaches. -/
theorem reaches_of_recording (holds : contract.Holds store log)
    (recorded : Commit.recording types options store metadata current = .ok commit)
    (written : id ∈ commit.snapshots.map Snapshot.id) : Store.Reaches store current.ids id := by
  obtain ⟨assembled, found, -, -, exactly, -⟩ :=
    recording_spec contract holds types options metadata current
  rw [recorded, Except.ok.injEq] at found
  subst found
  obtain ⟨snapshot, member, rfl⟩ := List.mem_map.mp written
  have due := (exactly snapshot.kind snapshot.node).mp ⟨snapshot, member, rfl, rfl⟩
  generalize snapshot.kind = kind at due
  have named : snapshot.node.id = snapshot.id := rfl
  rw [← named]
  generalize snapshot.node = node at due
  cases due with
  | initial captured => exact .seed (mem_ids_of_captured captured)
  | update captured => exact .seed (mem_ids_of_captured captured)
  | terminal reached => exact reached

/-- Where all that its graph reaches has the same newest snapshots, a recording writes the same. -/
theorem recording_unstamped (holds : contract.Holds store log)
    (holds_later : contract.Holds other later)
    (same : ∀ id, Store.Reaches store current.ids id → later.latest? id = log.latest? id)
    (recorded : Commit.recording types options store metadata current = .ok commit)
    (recorded' : Commit.recording types options other metadata' current = .ok commit') :
    commit'.snapshots.map Snapshot.unstamped = commit.snapshots.map Snapshot.unstamped := by
  rw [Commit.recording, closure_eq_of_latest?_eq contract holds holds_later same] at recorded'
  rw [Commit.recording] at recorded
  obtain ⟨latest, loads, assembled⟩ := bind_eq_ok_iff.mp recorded
  obtain ⟨latest', loads', assembled'⟩ := bind_eq_ok_iff.mp recorded'
  rw [loads, Except.ok.injEq] at loads'
  subst loads'
  cases assembled
  cases assembled'
  exact snapshotsFor_unstamped types options metadata' metadata latest current

end Reads

/-- Objects that are to be recorded, by whom and with which properties. -/
structure Recording where
  /-- Who records them. -/
  author : String
  /-- Further properties of the commit. -/
  properties : Labels
  /-- Where the objects live. -/
  heap : Heap
  /-- The objects that lead to all others. -/
  roots : List Slot

namespace Journal

variable {σ : Type} [Store σ] (contract : Store.Contract σ)

/-- Carry out a recording. -/
def record (journal : Journal σ) (moment : Moment) (recording : Recording) :
    Except AuditError Commit × Journal σ :=
  journal.commit moment recording.author recording.properties recording.heap recording.roots

/-- Carry out one recording after another. -/
def recordBoth (journal : Journal σ) (moment next : Moment) (first second : Recording) :
    Except AuditError Commit × Except AuditError Commit × Journal σ :=
  let one := journal.record moment first
  let both := one.2.record next second
  (one.1, both.1, both.2)

/-- The graph of a recording. -/
def graphOf (journal : Journal σ) (recording : Recording) : Except AuditError Graph :=
  journal.capture recording.heap recording.roots

/-- What is assembled for a recording fits into the store. -/
def RecordFits (journal : Journal σ) (moment : Moment) (recording : Recording) : Prop :=
  ∀ current commit, journal.graphOf recording = .ok current →
    Commit.recording journal.types journal.settings.diffOptions journal.store
      (journal.stamp moment recording.author recording.properties).1 current = .ok commit →
    contract.Fits commit

/-- What is assembled for one recording after another fits into the store. -/
def BothFit (journal : Journal σ) (moment next : Moment) (first second : Recording) : Prop :=
  RecordFits contract journal moment first ∧
    RecordFits contract (journal.record moment first).2 next second

variable {contract} {journal : Journal σ} {log : CommitLog} {moment next : Moment}
  {recording : Recording} {current : Graph} {commit : Commit}

theorem record_eq (captured : journal.graphOf recording = .ok current) (moment : Moment) :
    journal.record moment recording =
      journal.commitGraph moment recording.author recording.properties current := by
  have captured : journal.capture recording.heap recording.roots = .ok current := captured
  rw [record, Journal.commit, captured]

/-- A recording leaves types and settings as they are. -/
theorem frame_of_record (captured : journal.graphOf recording = .ok current) (moment : Moment) :
    (journal.record moment recording).2.types = journal.types ∧
      (journal.record moment recording).2.settings = journal.settings := by
  obtain ⟨store, after_eq⟩ := exists_store_of_commitGraph journal moment recording.author
    recording.properties current
  rw [record_eq captured, after_eq]
  exact ⟨rfl, rfl⟩

/-- A recording that succeeds is assembled over the store, and its snapshots come in front. -/
theorem histories_of_record (holds : contract.Holds journal.store log)
    (captured : journal.graphOf recording = .ok current)
    (fits : RecordFits contract journal moment recording)
    (recorded : (journal.record moment recording).1 = .ok commit) :
    Commit.recording journal.types journal.settings.diffOptions journal.store
        (journal.stamp moment recording.author recording.properties).1 current = .ok commit ∧
      ∃ later, contract.Holds (journal.record moment recording).2.store later ∧
        ∀ id, later.history id = CommitLog.history (commit :: log) id := by
  rw [record_eq captured] at recorded ⊢
  have assembled := recording_of_commitGraph recorded
  exact ⟨assembled,
    histories_of_commitGraph contract holds recorded (fits current commit captured assembled)⟩

/-- While consecutive ids are ahead, every recording succeeds and keeps them ahead. -/
theorem record_of_ahead (holds : contract.Holds journal.store log) (ahead : journal.Ahead)
    (captured : journal.graphOf recording = .ok current)
    (fits : RecordFits contract journal moment recording) :
    (∃ commit, (journal.record moment recording).1 = .ok commit) ∧
      (journal.record moment recording).2.Ahead := by
  have fitting := fun commit => fits current commit captured
  rw [record_eq captured]
  rcases commitGraph_writes holds current fitting with ⟨commit, after, recorded, -⟩ | refused
  · have advance : Advance (fun _ => False) journal log (written
        (journal.commitGraph moment recording.author recording.properties current)) :=
      commitGraph_advance contract holds moment recording.author recording.properties current
    have assembled := recording_of_commitGraph (congrArg Prod.fst recorded)
    rw [recorded] at advance ⊢
    refine ⟨⟨commit, rfl⟩, advance.ahead holds (fun other stored => ?_) ahead⟩
    rw [written, Option.mem_def, Option.ite_none_left_eq_some] at stored
    rw [← Option.some.inj stored.2]
    exact fitting commit assembled
  · exact absurd ahead refused.behind

/-- The part of a history that a commit has written, without its stamp. -/
theorem map_history_cons (commit : Commit) (log : CommitLog) (id : GlobalId) :
    (CommitLog.history (commit :: log) id).map Snapshot.unstamped =
      ((commit.snapshots.map Snapshot.unstamped).filter
          fun snapshot => snapshot.id == id).reverse ++
        (log.history id).map Snapshot.unstamped := by
  rw [CommitLog.history_cons, List.map_append, List.map_reverse, List.filter_map]
  rfl

/-- No graph reaches what another one reaches. -/
def Apart (store : σ) (current current' : Graph) : Prop :=
  ∀ id, Store.Reaches store current.ids id → ¬ Store.Reaches store current'.ids id

variable {first second : Recording} {current' : Graph} {commit' : Commit}

/-- Behind two recordings that are apart, the histories are those from before with the snapshots of
both in front, and the second one has written what it would have written as the first one. -/
theorem histories_of_recordBoth (holds : contract.Holds journal.store log)
    (captured : journal.graphOf first = .ok current)
    (captured' : journal.graphOf second = .ok current')
    (apart : Apart journal.store current current')
    (fits : BothFit contract journal moment next first second)
    (recorded : (journal.recordBoth moment next first second).1 = .ok commit)
    (recorded' : (journal.recordBoth moment next first second).2.1 = .ok commit') :
    Commit.recording journal.types journal.settings.diffOptions journal.store
        (journal.stamp moment first.author first.properties).1 current = .ok commit ∧
      (∀ metadata alone, Commit.recording journal.types journal.settings.diffOptions journal.store
        metadata current' = .ok alone →
          commit'.snapshots.map Snapshot.unstamped = alone.snapshots.map Snapshot.unstamped) ∧
      ∃ later, contract.Holds (journal.recordBoth moment next first second).2.2.store later ∧
        ∀ id, later.history id = CommitLog.history (commit' :: commit :: log) id := by
  obtain ⟨assembled, between, holds_between, histories⟩ :=
    histories_of_record holds captured fits.1 recorded
  obtain ⟨types_eq, settings_eq⟩ := frame_of_record captured moment
  have captured_next : (journal.record moment first).2.graphOf second = .ok current' := by
    rwa [graphOf, capture, types_eq]
  obtain ⟨assembled', later, holds_later, histories'⟩ :=
    histories_of_record holds_between captured_next fits.2 recorded'
  rw [types_eq, settings_eq] at assembled'
  refine ⟨assembled, fun metadata alone found => ?_, later, holds_later, fun id => ?_⟩
  · refine recording_unstamped contract holds holds_between (fun id reached => ?_) found assembled'
    -- What the second graph reaches has not been written by the first recording.
    have unwritten : id ∉ commit.snapshots.map Snapshot.id := fun written =>
      apart id (reaches_of_recording contract holds assembled written) reached
    rw [CommitLog.latest?, histories, CommitLog.history_cons_of_notMem unwritten, CommitLog.latest?]
  · rw [histories', CommitLog.history_cons, histories, ← CommitLog.history_cons]

theorem recordBoth_of_ahead (holds : contract.Holds journal.store log) (ahead : journal.Ahead)
    (captured : journal.graphOf first = .ok current)
    (captured' : journal.graphOf second = .ok current')
    (fits : BothFit contract journal moment next first second) :
    ∃ commit commit', (journal.recordBoth moment next first second).1 = .ok commit ∧
      (journal.recordBoth moment next first second).2.1 = .ok commit' := by
  obtain ⟨⟨commit, recorded⟩, still_ahead⟩ := record_of_ahead holds ahead captured fits.1
  obtain ⟨-, between, holds_between, -⟩ := histories_of_record holds captured fits.1 recorded
  have captured_next : (journal.record moment first).2.graphOf second = .ok current' := by
    rwa [graphOf, capture, (frame_of_record captured moment).1]
  obtain ⟨⟨commit', recorded'⟩, -⟩ :=
    record_of_ahead holds_between still_ahead captured_next fits.2
  exact ⟨commit, commit', recorded, recorded'⟩

/-- Over every store that journals can fill, let two recordings have graphs that reach nothing in
common.  If the recordings succeed in both orders, both orders leave every node with the same
history, stamps of commits apart; and they do succeed while consecutive ids are ahead. -/
theorem record_comm (reachable : Store.Reachable contract journal.store)
    (captured : journal.graphOf first = .ok current)
    (captured' : journal.graphOf second = .ok current')
    (apart : Apart journal.store current current') (m₁ m₂ n₁ n₂ : Moment)
    (fits : BothFit contract journal m₁ m₂ first second)
    (fits' : BothFit contract journal n₁ n₂ second first) :
    let one := journal.recordBoth m₁ m₂ first second
    let other := journal.recordBoth n₁ n₂ second first
    (∀ commit commit' other_commit other_commit', one.1 = .ok commit → one.2.1 = .ok commit' →
      other.1 = .ok other_commit → other.2.1 = .ok other_commit' →
        ∀ id, ∃ history history', Store.snapshotsOf one.2.2.store id .all = .ok history ∧
          Store.snapshotsOf other.2.2.store id .all = .ok history' ∧
          history.map Snapshot.unstamped = history'.map Snapshot.unstamped) ∧
    (journal.Ahead → ∃ commit commit' other_commit other_commit', one.1 = .ok commit ∧
      one.2.1 = .ok commit' ∧ other.1 = .ok other_commit ∧ other.2.1 = .ok other_commit') := by
  intro one other
  obtain ⟨log, holds⟩ := reachable.holds
  have apart' : Apart journal.store current' current :=
    fun id reached reached' => apart id reached' reached
  refine ⟨fun c₁ c₂ d₂ d₁ ok₁ ok₂ ok₂' ok₁' id => ?_, fun ahead => ?_⟩
  · obtain ⟨assembled, alike, later, holds_one, histories⟩ :=
      histories_of_recordBoth holds captured captured' apart fits ok₁ ok₂
    obtain ⟨assembled', alike', later', holds_other, histories'⟩ :=
      histories_of_recordBoth holds captured' captured apart' fits' ok₂' ok₁'
    refine ⟨_, _, contract.history_eq holds_one id, contract.history_eq holds_other id, ?_⟩
    rw [histories, histories', map_history_cons, map_history_cons, map_history_cons,
      map_history_cons, alike _ _ assembled', alike' _ _ assembled]
    have unwritten {commit : Commit} (absent : id ∉ commit.snapshots.map Snapshot.id) :
        (commit.snapshots.map Snapshot.unstamped).filter (fun snapshot => snapshot.id == id) =
          [] := by
      rw [List.filter_eq_nil_iff, List.forall_mem_map]
      intro snapshot member same
      have named : snapshot.id = id := beq_iff_eq.mp same
      exact absent (named ▸ List.mem_map_of_mem member)
    by_cases reached : Store.Reaches journal.store current.ids id
    · have absent : id ∉ d₂.snapshots.map Snapshot.id := fun written =>
        apart id reached (reaches_of_recording contract holds assembled' written)
      rw [unwritten absent]
      rfl
    · have absent : id ∉ c₁.snapshots.map Snapshot.id := fun written =>
        reached (reaches_of_recording contract holds assembled written)
      rw [unwritten absent]
      rfl
  · obtain ⟨c₁, c₂, ok₁, ok₂⟩ := recordBoth_of_ahead holds ahead captured captured' fits
    obtain ⟨d₂, d₁, ok₂', ok₁'⟩ := recordBoth_of_ahead holds ahead captured' captured fits'
    exact ⟨c₁, c₂, d₂, d₁, ok₁, ok₂, ok₂', ok₁'⟩

/-- One user gives up an address while another one moves. -/
theorem record_comm_housed :
    let user : Definition :=
      .entity ⟨"User", none, [⟨"id", .named "int", true, false⟩,
        ⟨"home", .named "Address", false, false⟩], []⟩ none
    let address : Definition :=
      .valueObject ⟨"Address", none, [⟨"street", .named "string", false, false⟩], []⟩
    let housed (id : Int) (slot : Slot) : Instance :=
      .ofList "User" [("id", .scalar (.int id)), ("home", .ref slot)]
    let place (street : String) : Instance :=
      .ofList "Address" [("street", .scalar (.text street))]
    let first : Recording :=
      ⟨"ann", .empty, ⟨[.ofList "User" [("id", .scalar (.int 1))]]⟩, [0]⟩
    let second : Recording := ⟨"bea", .empty, ⟨[housed 2 1, place "Side"]⟩, [0]⟩
    ∃ opened, start ⟨[user, address], {}⟩ MemoryStore.contract.empty = .ok opened ∧
      let journal := (opened.run [.commit ⟨0, 0⟩ "ann" .empty
        ⟨[housed 1 2, housed 2 3, place "Main", place "Main"]⟩ [0, 1]]).2
      Store.Reachable MemoryStore.contract journal.store ∧ journal.Ahead ∧
      ∃ current current', journal.graphOf first = .ok current ∧
        journal.graphOf second = .ok current' ∧ Apart journal.store current current' ∧
        BothFit MemoryStore.contract journal ⟨1, 0⟩ ⟨2, 0⟩ first second ∧
        BothFit MemoryStore.contract journal ⟨1, 0⟩ ⟨2, 0⟩ second first ∧
        let one := journal.recordBoth ⟨1, 0⟩ ⟨2, 0⟩ first second
        let other := journal.recordBoth ⟨1, 0⟩ ⟨2, 0⟩ second first
        (one.1.toOption.map fun commit => commit.snapshots.map (·.kind)) =
            some [.update, .terminal] ∧
          (other.1.toOption.map fun commit => commit.snapshots.map (·.kind)) = some [.update] ∧
          ∀ id, ∃ history history', Store.snapshotsOf one.2.2.store id .all = .ok history ∧
            Store.snapshotsOf other.2.2.store id .all = .ok history' ∧
            history.map Snapshot.unstamped = history'.map Snapshot.unstamped := by
  intro user address housed place first second
  refine ⟨_, rfl, ?_⟩
  intro journal
  have reachable : Store.Reachable MemoryStore.contract journal.store :=
    Store.Reachable.run .empty _ fun _ _ => trivial
  have opened : start ⟨[user, address], {}⟩ MemoryStore.contract.empty = .ok _ := rfl
  have ahead : journal.Ahead := run_ahead opened rfl (by simp) fun _ _ => trivial
  obtain ⟨current, captured⟩ : ∃ current, journal.graphOf first = .ok current :=
    exists_of_toOption (by decide +kernel)
  obtain ⟨current', captured'⟩ : ∃ current, journal.graphOf second = .ok current :=
    exists_of_toOption (by decide +kernel)
  let own (n : Int) : List GlobalId :=
    [.entity "User" (.int n), .owned (.entity "User" (.int n)) "home"]
  -- A user reaches nothing but the user and the address there.
  have mem_own {n : Int} {recording : Recording} {current : Graph}
      (captured : journal.graphOf recording = .ok current)
      (given : ∀ current ∈ (journal.graphOf recording).toOption, ∀ id ∈ current.ids, id ∈ own n)
      (closed : ∀ id ∈ own n, ∀ found ∈ (Store.latest? journal.store id).toOption,
        ∀ snapshot ∈ found, ∀ target ∈ snapshot.valueObjects, target ∈ own n)
      {id : GlobalId} (reached : Store.Reaches journal.store current.ids id) : id ∈ own n :=
    reached.mem_of_closed (given current (mem_toOption captured)) closed
  have apart : Apart journal.store current current' := by
    intro id reached reached'
    have near : id ∈ own 1 := mem_own captured (by decide +kernel) (by decide +kernel) reached
    have far : id ∈ own 2 := mem_own captured' (by decide +kernel) (by decide +kernel) reached'
    simp only [own, List.mem_cons, List.not_mem_nil, or_false] at near far
    rcases near with rfl | rfl <;> simp at far
  have fits (first second : Recording) :
      BothFit MemoryStore.contract journal ⟨1, 0⟩ ⟨2, 0⟩ first second :=
    ⟨fun _ _ _ _ => trivial, fun _ _ _ _ => trivial⟩
  refine ⟨reachable, ahead, current, current', captured, captured', apart, fits first second,
    fits second first, by decide +kernel, by decide +kernel, ?_⟩
  obtain ⟨alike, succeed⟩ := record_comm reachable captured captured' apart ⟨1, 0⟩ ⟨2, 0⟩ ⟨1, 0⟩
    ⟨2, 0⟩ (fits first second) (fits second first)
  obtain ⟨c₁, c₂, d₂, d₁, ok₁, ok₂, ok₂', ok₁'⟩ := succeed ahead
  exact alike c₁ c₂ d₂ d₁ ok₁ ok₂ ok₂' ok₁'

end Journal
end AuditTrail
