import AuditTrail.Proofs.Journal.Latest
import AuditTrail.Proofs.Shadow.Filling

/-!
# The past of a journal

Commits are stored in the order of their sequence numbers, of their times as long as the clock does
not go backwards, and of their ids if ids are consecutive.  A bound of a query therefore cuts the
log at one place, and what was stored up to there is found as it was when it was the newest.
-/

namespace AuditTrail

open Schema

/-- A commit comes before another one in every order that bounds of queries go by. -/
structure Commit.Before (scheme : CommitIdScheme) (older newer : Commit) : Prop where
  /-- Its sequence number is smaller. -/
  sequences : older.metadata.sequence < newer.metadata.sequence
  /-- Its time is not later. -/
  times : older.metadata.timestamp ≤ newer.metadata.timestamp
  /-- Its id is another one. -/
  distinct : older.id ≠ newer.id
  /-- Its id is smaller if ids are consecutive. -/
  ids : scheme = .sequential → compare older.id newer.id = .lt

namespace Commit

/-- The bound at a commit. -/
def bound (scheme : CommitIdScheme) (commit : Commit) : Bound :=
  .commit commit.id commit.metadata.timestamp commit.metadata.sequence scheme

variable {scheme : CommitIdScheme} {older newer : Commit}

theorem admits_bound_self (scheme : CommitIdScheme) (commit : Commit) :
    (commit.bound scheme).admits commit.metadata := by
  cases scheme with
  | sequential => exact Std.ReflCmp.isLE_rfl
  | random => simp [bound, Bound.admits, Commit.id]

theorem Before.admits_bound (before : older.Before scheme newer) :
    (newer.bound scheme).admits older.metadata := by
  cases scheme with
  | sequential =>
      have less := before.ids rfl
      exact Ordering.isLE_of_eq_lt less
  | random =>
      have sequences := before.sequences
      rcases Nat.lt_or_eq_of_le before.times with earlier | same
      · simp [bound, Bound.admits, earlier]
      · simp [bound, Bound.admits, same, sequences.le]

theorem Before.not_admits_bound (before : older.Before scheme newer) :
    ¬ (older.bound scheme).admits newer.metadata := by
  cases scheme with
  | sequential =>
      have less := before.ids rfl
      have greater : compare newer.metadata.id older.id = .gt := Std.OrientedCmp.gt_of_lt less
      simp [bound, Bound.admits, greater]
  | random =>
      have distinct : newer.metadata.id ≠ older.id := Ne.symm before.distinct
      have times := before.times
      have sequences := before.sequences
      simp only [bound, Bound.admits, Bool.or_eq_true, beq_iff_eq, decide_eq_true_eq,
        Bool.and_eq_true, distinct, false_or]
      omega

end Commit

/-- A query without a bound finds the newest live snapshots. -/
theorem Store.Contract.source {σ : Type} [Store σ] (contract : Store.Contract σ) {store : σ}
    {log : CommitLog} (holds : contract.Holds store log) :
    Shadow.Source store .latest log.live? where
  answers := contract.live?_eq holds
  named _ _ found := CommitLog.id_of_live? found
  counted := by
    refine ⟨log.snapshots.map Snapshot.id, ?_, fun _ => CommitLog.mem_ids_of_live?⟩
    rw [List.length_map, contract.snapshotCount_eq holds]

namespace MemoryStore

variable {store : MemoryStore} {later earlier : CommitLog} {bound : Bound}

/-- A bound that cuts a log at one place finds the histories up to there. -/
theorem filter_history (stamped : ∀ commit ∈ later ++ earlier, ∀ snapshot ∈ commit.snapshots,
      snapshot.commit = commit.metadata)
    (admitted : ∀ commit ∈ earlier, bound.admits commit.metadata)
    (excluded : ∀ commit ∈ later, ¬ bound.admits commit.metadata) (id : GlobalId) :
    (CommitLog.history (later ++ earlier) id).filter (Query.latestWithin bound).admits =
      earlier.history id := by
  have written {log : CommitLog} {snapshot : Snapshot} (member : snapshot ∈ log.history id) :
      ∃ commit ∈ log, snapshot ∈ commit.snapshots := by
    obtain ⟨commit, commit_mem, within⟩ := List.mem_flatMap.mp (List.mem_filter.mp member).1
    exact ⟨commit, commit_mem, List.mem_reverse.mp within⟩
  have split : CommitLog.history (later ++ earlier) id =
      later.history id ++ earlier.history id := by
    simp only [CommitLog.history, CommitLog.snapshots, List.flatMap_append, List.filter_append]
  have none_later : (later.history id).filter (Query.latestWithin bound).admits = [] := by
    rw [List.filter_eq_nil_iff]
    intro snapshot member
    obtain ⟨commit, commit_mem, within⟩ := written member
    change ¬ bound.admits snapshot.commit
    rw [stamped commit (List.mem_append_left _ commit_mem) snapshot within]
    exact excluded commit commit_mem
  have all_earlier : (earlier.history id).filter (Query.latestWithin bound).admits =
      earlier.history id := by
    rw [List.filter_eq_self]
    intro snapshot member
    obtain ⟨commit, commit_mem, within⟩ := written member
    change bound.admits snapshot.commit
    rw [stamped commit (List.mem_append_right _ commit_mem) snapshot within]
    exact admitted commit commit_mem
  rw [split, List.filter_append, none_later, all_earlier, List.nil_append]

/-- Under such a bound, what was live at that place is found. -/
theorem Holds.source_within (holds : store.Holds (later ++ earlier))
    (stamped : ∀ commit ∈ later ++ earlier, ∀ snapshot ∈ commit.snapshots,
      snapshot.commit = commit.metadata)
    (admitted : ∀ commit ∈ earlier, bound.admits commit.metadata)
    (excluded : ∀ commit ∈ later, ¬ bound.admits commit.metadata) :
    Shadow.Source store (.latestWithin bound) earlier.live? where
  answers id := by
    have selected : Store.snapshotsOf store id (.latestWithin bound) =
        .ok ((Query.latestWithin bound).select (CommitLog.history (later ++ earlier) id)) := by
      rw [← holds.history_eq]
      rfl
    rw [Store.live?, Store.first?, selected, Query.select,
      filter_history stamped admitted excluded, CommitLog.live?, CommitLog.latest?]
    cases earlier.history id <;> rfl
  named _ _ found := CommitLog.id_of_live? found
  counted := by
    refine ⟨earlier.snapshots.map Snapshot.id, ?_, fun _ => CommitLog.mem_ids_of_live?⟩
    change _ ≤ store.snapshots.length
    rw [holds.snapshots, List.length_map, CommitLog.snapshots, CommitLog.snapshots,
      List.flatMap_append, List.length_append]
    exact Nat.le_add_left _ _

end MemoryStore

/-- A plan registers the same classes and numbers commits in the same way. -/
structure JournalPlan.Agrees (plan other : JournalPlan) : Prop where
  /-- The classes are the same. -/
  definitions : other.definitions = plan.definitions
  /-- The ids are of the same scheme. -/
  scheme : other.settings.scheme = plan.settings.scheme

namespace Journal

section Chronicles

variable {σ : Type} [Store σ]

/-- The moment at which an operation takes place.  Opening another journal notes none. -/
def Operation.moment? : Operation → Option Moment
  | .commit moment _ _ _ _ => some moment
  | .delete moment _ _ => some moment
  | .deleteObject moment _ _ _ => some moment
  | .reopen _ => none

theorem run_append (journal : Journal σ) (first second : List Operation) :
    journal.run (first ++ second) =
      ((journal.run first).1 ++ ((journal.run first).2.run second).1,
        ((journal.run first).2.run second).2) := by
  induction first generalizing journal with
  | nil => rfl
  | cons operation rest induction =>
      rw [List.cons_append, run_cons, induction, run_cons, List.append_assoc]

variable (contract : Store.Contract σ) {plan : JournalPlan} {journal : Journal σ}
  {log : CommitLog} {outcome : Option Commit × Journal σ}

/-- A stored commit has the time of its operation. -/
theorem timestamp_of_step (holds : contract.Holds journal.store log) {operation : Operation}
    {commit : Commit} (stored : (journal.step operation).1 = some commit) :
    ∃ moment, operation.moment? = some moment ∧ commit.metadata.timestamp = moment.now := by
  obtain ⟨due, records, -⟩ := step_records contract holds stored
  generalize commit.metadata = metadata at records
  cases records with
  | commit | delete | deleteObject => exact ⟨_, rfl, rfl⟩

/-- The store holds a log in the order of storing, and the journal works by a plan. -/
structure Chronicle (plan : JournalPlan) (journal : Journal σ) (log : CommitLog) : Prop where
  /-- The store holds the log. -/
  recorded : Recorded contract journal log
  /-- The types are those of the plan. -/
  types : TypeTable.ofDefinitions plan.definitions = .ok journal.types
  /-- The ids are of the scheme of the plan. -/
  scheme : journal.numbering.scheme = plan.settings.scheme
  /-- Commits are stored in the order that bounds go by. -/
  ordered : log.Pairwise fun newer older => older.Before plan.settings.scheme newer
  /-- Snapshots name the commits that wrote them. -/
  stamped : ∀ commit ∈ log, ∀ snapshot ∈ commit.snapshots, snapshot.commit = commit.metadata

omit [Store σ] in
theorem scheme_stamp (journal : Journal σ) (moment : Moment) (author : String)
    (properties : Labels) :
    (journal.stamp moment author properties).2.numbering.scheme = journal.numbering.scheme := by
  cases numbering : journal.numbering <;> simp [stamp, numbering, Numbering.next, Numbering.scheme]

theorem numbering_of_scheme {numbering : Numbering} (sequential : numbering.scheme = .sequential) :
    ∃ last, numbering = .sequential last := by
  cases numbering with
  | sequential last => exact ⟨last, rfl⟩
  | random => cases sequential

/-- An operation at a later time keeps the chronicle. -/
theorem Advance.chronicle (advance : Advance plan.Agrees journal log outcome)
    (chronicle : Chronicle contract plan journal log)
    (fits : ∀ commit ∈ outcome.1, contract.Fits commit)
    (later : ∀ commit ∈ outcome.1, ∀ older ∈ log,
      older.metadata.timestamp ≤ commit.metadata.timestamp) :
    Chronicle contract plan outcome.2 (outcome.1.toList ++ log) := by
  have recorded := advance.recorded contract chronicle.recorded fits
  cases advance with
  | idle => exact chronicle
  | stamped moment author properties =>
      exact ⟨recorded, chronicle.types,
        (scheme_stamp journal moment author properties).trans chronicle.scheme,
        chronicle.ordered, chronicle.stamped⟩
  | @reopened other next agrees opened =>
      refine ⟨recorded, ?_, ?_, chronicle.ordered, chronicle.stamped⟩
      · rw [← agrees.definitions]
        exact types_of_start opened
      · rw [← agrees.scheme]
        exact scheme_of_start opened
  | @stored moment author properties commit store metadata extends_log persisted =>
      refine ⟨recorded, chronicle.types,
        (scheme_stamp journal moment author properties).trans chronicle.scheme, ?_, ?_⟩
      · refine List.pairwise_cons.mpr ⟨fun older member => ?_, chronicle.ordered⟩
        refine ⟨?_, later commit rfl older member, ?_, fun sequential => ?_⟩
        · rw [metadata]
          exact Nat.lt_succ_of_le (chronicle.recorded.sequence older member)
        · intro same
          have taken : commit.id ∈ log.map Commit.id := same ▸ List.mem_map_of_mem member
          rw [contract.persist_taken chronicle.recorded.holds taken] at persisted
          cases persisted
        · obtain ⟨last, numbering⟩ := numbering_of_scheme (chronicle.scheme.trans sequential)
          exact (chronicle.recorded.precedes_stamp contract numbering metadata member).ids
      · exact List.forall_mem_cons.mpr ⟨extends_log.stamped, chronicle.stamped⟩

/-- The operations that are left open journals by the plan, at times that do not go backwards and
that no commit of the log is later than. -/
structure InTime (plan : JournalPlan) (left : List Operation) (log : CommitLog) : Prop where
  /-- Journals are opened by the plan. -/
  reopened : ∀ other, .reopen other ∈ left → plan.Agrees other
  /-- The clock does not go backwards. -/
  clock : (left.filterMap Operation.moment?).Pairwise fun a b => a.now ≤ b.now
  /-- No commit is later than what is left. -/
  past : ∀ commit ∈ log, ∀ moment ∈ left.filterMap Operation.moment?,
    commit.metadata.timestamp ≤ moment.now

omit [Store σ] in
/-- What is left without its first operation is in time, also for a commit of that operation. -/
theorem InTime.next {operation : Operation} {rest : List Operation}
    (in_time : InTime plan (operation :: rest) log) {stored : Option Commit}
    (stamped : ∀ commit ∈ stored, ∃ moment, operation.moment? = some moment ∧
      commit.metadata.timestamp = moment.now) : InTime plan rest (stored.toList ++ log) where
  reopened other member := in_time.reopened other (List.mem_cons_of_mem _ member)
  clock := in_time.clock.sublist ((List.sublist_cons_self operation rest).filterMap _)
  past commit member moment moment_mem := by
    rcases List.mem_append.mp member with fresh | older
    · obtain ⟨noted, is_noted, same⟩ := stamped commit (Option.mem_toList.mp fresh)
      have clock := in_time.clock
      rw [List.filterMap_cons_some is_noted] at clock
      rw [same]
      exact (List.pairwise_cons.mp clock).1 moment moment_mem
    · exact in_time.past commit older moment
        (((List.sublist_cons_self operation rest).filterMap _).subset moment_mem)

/-- Over a whole run whose clock does not go backwards, the chronicle is kept. -/
theorem run_chronicle (chronicle : Chronicle contract plan journal log)
    {operations : List Operation} (in_time : InTime plan operations log)
    (fits : ∀ commit ∈ (journal.run operations).1, contract.Fits commit) :
    Chronicle contract plan (journal.run operations).2
      ((journal.run operations).1.reverse ++ log) := by
  refine (run_induction (motive := fun left journal log =>
    Chronicle contract plan journal log ∧ InTime plan left log) ?_ ⟨chronicle, in_time⟩ fits).1
  rintro operation rest journal log ⟨chronicle, in_time⟩ fits
  have holds := chronicle.recorded.holds
  have advance := step_advance contract holds operation fun other same =>
    in_time.reopened other (same ▸ List.mem_cons_self)
  have stamped : ∀ commit ∈ (journal.step operation).1, ∃ moment,
      operation.moment? = some moment ∧ commit.metadata.timestamp = moment.now :=
    fun _ stored => timestamp_of_step contract holds stored
  refine ⟨advance.chronicle contract chronicle fits fun commit stored older member => ?_,
    in_time.next stamped⟩
  obtain ⟨moment, noted, same⟩ := stamped commit stored
  rw [same]
  exact in_time.past older member moment
    (List.mem_filterMap.mpr ⟨operation, List.mem_cons_self, noted⟩)

theorem chronicle_of_start (opened : start plan contract.empty = .ok journal) :
    Chronicle contract plan journal [] where
  recorded := recorded_of_start contract opened
  types := types_of_start opened
  scheme := scheme_of_start opened
  ordered := .nil
  stamped _ member := (nomatch member)

end Chronicles

section Shadows

variable {plan : JournalPlan} {journal past : Journal MemoryStore} {later earlier : CommitLog}

/-- Under a bound that cuts the log at one place, a shadow is as the latest one was there. -/
theorem shadow_within (chronicle : Chronicle MemoryStore.contract plan journal (later ++ earlier))
    (before : Chronicle MemoryStore.contract plan past earlier) (bound : Bound)
    {selector : VersionSelector}
    (selects : selector.query journal.store journal.numbering.scheme = .ok (.latestWithin bound))
    (admitted : ∀ commit ∈ earlier, bound.admits commit.metadata)
    (excluded : ∀ commit ∈ later, ¬ bound.admits commit.metadata) (id : GlobalId)
    (scope : ShadowScope) : journal.shadow id selector scope = past.shadow id .latest scope := by
  have types : journal.types = past.types :=
    Except.ok.inj (chronicle.types.symm.trans before.types)
  have source := MemoryStore.Holds.source_within chronicle.recorded.holds chronicle.stamped
    admitted excluded
  have source_past := MemoryStore.contract.source before.recorded.holds
  rw [Journal.shadow, Journal.shadow, Shadow.of_eq source journal.types selects,
    Shadow.of_eq source_past past.types rfl, types]
  cases found : earlier.live? id with
  | none => rfl
  | some snapshot => simp only [Shadow.ofSnapshot_congr source source_past past.types scope found]

/-- A shadow at a stored commit is as the latest one was right behind it. -/
theorem shadow_commit {commit : Commit}
    (chronicle : Chronicle MemoryStore.contract plan journal (later ++ commit :: earlier))
    (before : Chronicle MemoryStore.contract plan past (commit :: earlier)) (id : GlobalId)
    (scope : ShadowScope) :
    journal.shadow id (.commit commit.id) scope = past.shadow id .latest scope := by
  have stored : commit ∈ later ++ commit :: earlier :=
    List.mem_append_right later List.mem_cons_self
  have ordered := List.pairwise_append.mp chronicle.ordered
  have found := MemoryStore.Holds.metadata?_eq chronicle.recorded.holds stored
  refine shadow_within chronicle before (commit.bound plan.settings.scheme) ?_ ?_ ?_ id scope
  · simp only [VersionSelector.query, found, chronicle.scheme]
    rfl
  · refine List.forall_mem_cons.mpr ⟨commit.admits_bound_self _, fun older member => ?_⟩
    exact ((List.pairwise_cons.mp ordered.2.1).1 older member).admits_bound
  · exact fun newer member =>
      (ordered.2.2 newer member commit List.mem_cons_self).not_admits_bound

/-- A shadow at a time is as the latest one was behind the last commit up to that time. -/
theorem shadow_time {commit : Commit}
    (chronicle : Chronicle MemoryStore.contract plan journal (later ++ commit :: earlier))
    (before : Chronicle MemoryStore.contract plan past (commit :: earlier)) {time : Nat}
    (reached : commit.metadata.timestamp ≤ time)
    (passed : ∀ newer ∈ later, time < newer.metadata.timestamp) (id : GlobalId)
    (scope : ShadowScope) :
    journal.shadow id (.time time) scope = past.shadow id .latest scope := by
  refine shadow_within chronicle before (.time time) rfl ?_ ?_ id scope
  · refine List.forall_mem_cons.mpr ⟨decide_eq_true reached, fun older member => ?_⟩
    have times := ((List.pairwise_cons.mp before.ordered).1 older member).times
    exact decide_eq_true (times.trans reached)
  · intro newer member
    simpa [Bound.admits] using passed newer member

/-- Before the first commit nothing is found. -/
theorem shadow_time_of_none
    (chronicle : Chronicle MemoryStore.contract plan journal later) {time : Nat}
    (passed : ∀ newer ∈ later, time < newer.metadata.timestamp) (id : GlobalId)
    (scope : ShadowScope) : journal.shadow id (.time time) scope = .error (.notFound id) := by
  rw [← List.append_nil later] at chronicle
  have source : Shadow.Source journal.store (.latestWithin (.time time)) (CommitLog.live? []) :=
    MemoryStore.Holds.source_within chronicle.recorded.holds chronicle.stamped
      (fun _ member => (nomatch member)) fun newer member => by
        simpa [Bound.admits] using passed newer member
  rw [Journal.shadow, Shadow.of_eq source journal.types rfl]
  rfl

/-- Over the store in memory, as long as the clock does not go backwards, shadows of the past are
what the latest shadows were: at a stored commit right behind it, and at a time behind the last
commit up to that time, if there is one. -/
theorem shadow_of_past (opened : start plan MemoryStore.empty = .ok journal)
    {operations : List Operation}
    (reopened : ∀ other, .reopen other ∈ operations → plan.Agrees other)
    (clock : (operations.filterMap Operation.moment?).Pairwise fun a b => a.now ≤ b.now)
    (id : GlobalId) (scope : ShadowScope) :
    (∀ before operation after commit, operations = before ++ operation :: after →
      ((journal.run before).2.step operation).1 = some commit →
        (journal.run operations).2.shadow id (.commit commit.id) scope =
            ((journal.run before).2.step operation).2.shadow id .latest scope ∧
          ∀ time, commit.metadata.timestamp ≤ time →
            (∀ newer ∈ (((journal.run before).2.step operation).2.run after).1,
              time < newer.metadata.timestamp) →
            (journal.run operations).2.shadow id (.time time) scope =
              ((journal.run before).2.step operation).2.shadow id .latest scope) ∧
      ∀ time, (∀ commit ∈ (journal.run operations).1, time < commit.metadata.timestamp) →
        (journal.run operations).2.shadow id (.time time) scope = .error (.notFound id) := by
  have begun : Chronicle MemoryStore.contract plan journal [] := chronicle_of_start _ opened
  have reaches (taken rest : List Operation) (split : operations = taken ++ rest) :
      Chronicle MemoryStore.contract plan (journal.run taken).2 (journal.run taken).1.reverse := by
    rw [split] at reopened clock
    rw [List.filterMap_append] at clock
    rw [← List.append_nil (List.reverse _)]
    refine run_chronicle _ begun ⟨?_, (List.pairwise_append.mp clock).1, ?_⟩ fun _ _ => trivial
    · exact fun other member => reopened other (List.mem_append_left _ member)
    · exact fun _ member => (nomatch member)
  refine ⟨fun before operation after commit split stored => ?_, fun time passed => ?_⟩
  · have taken : journal.run (before ++ [operation]) =
        ((journal.run before).1 ++ [commit], ((journal.run before).2.step operation).2) := by
      rw [run_append, run_cons, stored]
      rfl
    have whole : journal.run operations =
        ((journal.run before).1 ++
            commit :: (((journal.run before).2.step operation).2.run after).1,
          (((journal.run before).2.step operation).2.run after).2) := by
      rw [split, run_append, run_cons, stored]
      rfl
    have past := reaches (before ++ [operation]) after (by simp [split])
    rw [taken, List.reverse_append, List.reverse_singleton, List.singleton_append] at past
    have final := reaches operations [] (List.append_nil operations).symm
    rw [whole, List.reverse_append, List.reverse_cons, List.append_assoc,
      List.singleton_append] at final
    rw [whole]
    refine ⟨shadow_commit final past id scope, fun time reached passed => ?_⟩
    exact shadow_time final past reached
      (fun newer member => passed newer (List.mem_reverse.mp member)) id scope
  · have final := reaches operations [] (List.append_nil operations).symm
    exact shadow_time_of_none final
      (fun newer member => passed newer (List.mem_reverse.mp member)) id scope

/-- A name changes twice within a millisecond and once more later, under drawn ids that fall. -/
theorem shadow_of_past_sameMillisecond :
    let user : Definition :=
      .entity ⟨"User", none, [⟨"id", .named "int", true, false⟩,
        ⟨"name", .named "string", false, false⟩], []⟩ none
    let plan : JournalPlan := ⟨[user], { scheme := .random }⟩
    let record (moment : Moment) (name : String) : Operation :=
      .commit moment "ann" .empty
        ⟨[.ofList "User" [("id", .scalar (.int 1)), ("name", .scalar (.text name))]]⟩ [0]
    let ada := record ⟨5, 9⟩ "Ada"
    let bob := record ⟨5, 4⟩ "Bob"
    let cleo := record ⟨6, 2⟩ "Cleo"
    let id : GlobalId := .entity "User" (.int 1)
    ∃ journal : Journal MemoryStore, start plan MemoryStore.empty = .ok journal ∧
      let first := journal.step ada
      let second := (journal.run [ada]).2.step bob
      let final := (journal.run [ada, bob, cleo]).2
      ∃ older newer, first.1 = some older ∧ second.1 = some newer ∧
        older.metadata.timestamp = newer.metadata.timestamp ∧ newer.id.major < older.id.major ∧
        final.shadow id (.commit older.id) .deep = first.2.shadow id .latest .deep ∧
        final.shadow id (.time 5) .deep = second.2.shadow id .latest .deep ∧
        final.shadow id (.time 4) .deep = .error (.notFound id) := by
  intro user plan record ada bob cleo id
  refine ⟨_, rfl, ?_⟩
  intro first second final
  have reopened : ∀ other, Operation.reopen other ∈ [ada, bob, cleo] → plan.Agrees other :=
    fun other member => by simp [ada, bob, cleo, record] at member
  have past := shadow_of_past (show start plan MemoryStore.empty = .ok _ from rfl) reopened
    (by decide) id .deep
  have at_first := past.1 [] ada [bob, cleo] (first.1.get (by decide +kernel)) rfl
    (Option.some_get _).symm
  have at_second := past.1 [ada] bob [cleo] (second.1.get (by decide +kernel)) rfl
    (Option.some_get _).symm
  refine ⟨first.1.get (by decide +kernel), second.1.get (by decide +kernel),
    (Option.some_get _).symm, (Option.some_get _).symm, ?_, ?_, at_first.1, at_second.2 5 ?_ ?_,
    past.2 4 ?_⟩
  all_goals decide +kernel

end Shadows

end Journal
end AuditTrail
