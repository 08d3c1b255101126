import AuditTrail.Proofs.Commit.Likeness
import AuditTrail.Proofs.Journal.Backends

/-!
# Options of comparison and history

How the elements of lists are matched, and whether a diff reports the properties of new and of
removed nodes, decides what a commit reports and leaves history alone.  Two journals that differ in
these options only go on alike, whatever is asked of them.
-/

namespace AuditTrail

open Schema

namespace Journal

/-- What the outcome of an attempt to record or to end nodes looks like; reading is no attempt. -/
def Response.outcome? : Response → Option (Except AuditError Commit)
  | .commit outcome => some (outcome.map Commit.bare)
  | _ => none

section Pairs

variable {σ : Type} [Store σ] (likeness : Store.Likeness σ)

/-- Two journals with the same types and numbers over stores that look alike. -/
structure GoesLike (journal other : Journal σ) : Prop where
  /-- They have the same types. -/
  types : journal.types = other.types
  /-- The next ids are the same. -/
  numbering : journal.numbering = other.numbering
  /-- The next sequence numbers are the same. -/
  lastSequence : journal.lastSequence = other.lastSequence
  /-- Their stores look alike. -/
  store : likeness.Like journal.store other.store

/-- Two attempts fail with the same error, or with commits that look alike, and the journals go on
alike. -/
structure EndsLike (outcome other : Except AuditError Commit × Journal σ) : Prop where
  /-- The answers look alike. -/
  answers : outcome.1.map Commit.bare = other.1.map Commit.bare
  /-- The journals go on alike. -/
  journals : GoesLike likeness outcome.2 other.2

namespace GoesLike

variable {likeness} {journal other : Journal σ} (goes : GoesLike likeness journal other)

include goes

theorem error (error : AuditError) :
    EndsLike likeness (.error error, journal) (.error error, other) :=
  ⟨rfl, goes⟩

variable (moment : Moment) (author : String) (properties : Labels)

/-- Both give a commit the same metadata. -/
theorem stamp_fst :
    (journal.stamp moment author properties).1 = (other.stamp moment author properties).1 := by
  simp only [stamp, goes.numbering, goes.lastSequence]

/-- Taking numbers, both go on alike. -/
theorem stamp_snd : GoesLike likeness (journal.stamp moment author properties).2
    (other.stamp moment author properties).2 where
  types := goes.types
  numbering := by simp only [stamp, goes.numbering]
  lastSequence := by simp only [stamp, goes.lastSequence]
  store := goes.store

/-- Commits that look alike are both stored or both refused. -/
theorem persist {commit counterpart : Commit} (alike : commit.bare = counterpart.bare) :
    EndsLike likeness (journal.persist commit) (other.persist counterpart) := by
  rw [Journal.persist, Journal.persist]
  rcases likeness.persist goes.store alike with
    ⟨error, failed, failed'⟩ | ⟨after, after', stored, stored', like⟩
  · rw [failed, failed']
    exact goes.error _
  · rw [stored, stored']
    exact ⟨congrArg Except.ok alike, goes.types, goes.numbering, goes.lastSequence, like⟩

theorem commitGraph (current : Graph) :
    EndsLike likeness (journal.commitGraph moment author properties current)
      (other.commitGraph moment author properties current) := by
  have stamped := goes.stamp_snd moment author properties
  have recorded := recording_bare likeness goes.store journal.types journal.settings.diffOptions
    other.settings.diffOptions (journal.stamp moment author properties).1 current
  rw [commitGraph_eq, commitGraph_eq, ← goes.types, ← goes.stamp_fst]
  rcases map_eq_map_iff.mp recorded with
    ⟨error, failed, failed'⟩ | ⟨commit, commit', assembled, assembled', alike⟩
  · rw [failed, failed']
    exact stamped.error _
  · simp only [assembled, assembled', Commit.isEmpty_of_bare alike]
    split
    · exact ⟨congrArg Except.ok alike, stamped⟩
    · exact stamped.persist alike

theorem delete (id : GlobalId) :
    EndsLike likeness (journal.delete moment author id) (other.delete moment author id) := by
  have stamped := goes.stamp_snd moment author .empty
  have assembled := terminating_bare likeness goes.store (journal.stamp moment author .empty).1 id
  rw [delete_eq, delete_eq, ← goes.stamp_fst]
  rcases map_eq_map_iff.mp assembled with
    ⟨error, failed, failed'⟩ | ⟨commit?, commit?', given, given', alike⟩
  · rw [failed, failed']
    exact stamped.error _
  · rw [given, given']
    cases commit? with
    | none =>
        rw [Option.map_none, eq_comm, Option.map_eq_none_iff] at alike
        rw [alike]
        exact stamped.error _
    | some commit =>
        rw [Option.map_some, eq_comm, Option.map_eq_some_iff] at alike
        obtain ⟨commit', rfl, alike⟩ := alike
        exact stamped.persist alike.symm

/-- Whatever is asked, both go on alike. -/
theorem answer (request : Request) :
    (journal.answer request).1.outcome? = (other.answer request).1.outcome? ∧
      GoesLike likeness (journal.answer request).2 (other.answer request).2 := by
  have attempt {outcome outcome' : Except AuditError Commit × Journal σ}
      (ends : EndsLike likeness outcome outcome') :
      (Response.commit outcome.1).outcome? = (Response.commit outcome'.1).outcome? ∧
        GoesLike likeness outcome.2 outcome'.2 :=
    ⟨congrArg some ends.answers, ends.journals⟩
  cases request with
  | commit moment author properties heap roots =>
      suffices ends : EndsLike likeness (journal.commit moment author properties heap roots)
          (other.commit moment author properties heap roots) from attempt ends
      have captured : journal.capture heap roots = other.capture heap roots := by
        rw [capture, capture, goes.types]
      rw [Journal.commit, Journal.commit, captured]
      cases other.capture heap roots with
      | error error => exact goes.error error
      | ok current => exact goes.commitGraph moment author properties current
  | delete moment author id => exact attempt (goes.delete moment author id)
  | deleteObject moment author heap slot =>
      suffices ends : EndsLike likeness (journal.deleteObject moment author heap slot)
          (other.deleteObject moment author heap slot) from attempt ends
      have named : journal.idOf heap slot = other.idOf heap slot := by
        rw [idOf, idOf, goes.types]
      rw [deleteObject, deleteObject, named]
      cases other.idOf heap slot with
      | error error => exact goes.error error
      | ok id => exact goes.delete moment author id
  | snapshotsOf | latest | shadow =>
      -- Neither side has an outcome; the answers themselves need not be compared.
      exact ⟨(rfl : _ = none).trans (rfl : none = _), goes⟩

/-- Requests in order are answered alike, and leave journals that go on alike. -/
theorem answers (requests : List Request) :
    (journal.answers requests).filterMap Response.outcome? =
        (other.answers requests).filterMap Response.outcome? ∧
      GoesLike likeness (journal.after requests) (other.after requests) := by
  induction requests generalizing journal other with
  | nil => exact ⟨rfl, goes⟩
  | cons request rest induction =>
      obtain ⟨first, next⟩ := goes.answer request
      obtain ⟨later, final⟩ := induction next
      refine ⟨?_, final⟩
      change ((journal.answer request).1 :: (journal.answer request).2.answers rest).filterMap
          Response.outcome? =
        ((other.answer request).1 :: (other.answer request).2.answers rest).filterMap
          Response.outcome?
      rw [List.filterMap_cons, List.filterMap_cons, first, later]

end GoesLike

end Pairs

/-- Whatever the options of comparison, the same requests are answered alike over any backend and
leave the same commits and the same histories, where only updates are asked what they changed. -/
theorem history_eq_of_options (definitions : List Definition) (settings : Settings)
    (alignment : Alignment) (initialChanges terminalChanges : Bool) (backend : Backend)
    (requests : List Request) :
    let plan : JournalPlan := ⟨definitions, settings⟩
    let other : JournalPlan :=
      ⟨definitions, { settings with alignment, initialChanges, terminalChanges }⟩
    (∃ error, start plan backend = .error error ∧ start other backend = .error error) ∨
      ∃ first second, start plan backend = .ok first ∧ start other backend = .ok second ∧
        (first.answers requests).filterMap Response.outcome? =
          (second.answers requests).filterMap Response.outcome? ∧
        let left := (first.after requests).store
        let right := (second.after requests).store
        Store.head? left = Store.head? right ∧
          Store.lastSequence left = Store.lastSequence right ∧
          (∀ id, Store.metadata? left id = Store.metadata? right id) ∧
          ∀ id query, (Store.snapshotsOf left id query).map (List.map Snapshot.bare) =
            (Store.snapshotsOf right id query).map (List.map Snapshot.bare) := by
  intro plan other
  unfold start
  cases TypeTable.ofDefinitions definitions with
  | error error => exact .inl ⟨_, rfl, rfl⟩
  | ok types =>
      refine .inr ⟨_, _, rfl, rfl, ?_⟩
      have goes : GoesLike Backend.likeness
          (⟨plan.settings, types, backend, .startingAfter settings.scheme (Store.head? backend),
            Store.lastSequence backend⟩ : Journal Backend)
          ⟨other.settings, types, backend, .startingAfter settings.scheme (Store.head? backend),
            Store.lastSequence backend⟩ := ⟨rfl, rfl, rfl, Backend.likeness.refl backend⟩
      obtain ⟨answered, final⟩ := goes.answers requests
      exact ⟨answered, Backend.likeness.head? final.store,
        Backend.likeness.lastSequence final.store, Backend.likeness.metadata? final.store,
        Backend.likeness.snapshotsOf final.store⟩

end Journal
end AuditTrail
