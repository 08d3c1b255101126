import AuditTrail.Capture.Walk
import AuditTrail.Commit.Assembly
import AuditTrail.Settings
import AuditTrail.Shadow

/-!
# Journals

A journal is an audit trail in use: type table, settings, store, and the numbers of the next commit.
It captures live objects, compares them, records commits and rebuilds the past.

Every attempt to commit takes an id and a sequence number, even if nothing turns out to have
changed or the store refuses; an attempt whose objects cannot be captured takes none.
-/

namespace AuditTrail

open Schema

/-- When something is recorded, and the random number drawn for it. -/
structure Moment where
  /-- Milliseconds since the start of 1970. -/
  now : Nat
  /-- A random number. -/
  draw : Nat
  deriving DecidableEq, Inhabited

/-- An audit trail in use. -/
structure Journal (σ : Type) where
  /-- Settings, fixed since the journal was opened. -/
  settings : Settings
  /-- The registered types. -/
  types : TypeTable
  /-- Where commits are kept. -/
  store : σ
  /-- Where commit ids come from. -/
  numbering : Numbering
  /-- The sequence number taken last. -/
  lastSequence : Nat

/-- What a journal needs to be opened. -/
structure JournalPlan where
  /-- Class definitions in order of registration. -/
  definitions : List Definition
  /-- Settings of the journal. -/
  settings : Settings

/-- The failure of an operation whose objects cannot be captured. -/
def AuditError.ofCapture : CaptureError → AuditError
  | .schema error => .schema error
  | error => .capture error

namespace Journal

variable {σ : Type} [Store σ]

/-- Open a journal over a store.  Numbers continue after the highest stored ones. -/
def start (plan : JournalPlan) (store : σ) : Except AuditError (Journal σ) :=
  match TypeTable.ofDefinitions plan.definitions with
  | .error error => .error (.schema error)
  | .ok types =>
    .ok
      { settings := plan.settings
        types
        store
        numbering := .startingAfter plan.settings.scheme (Store.head? store)
        lastSequence := Store.lastSequence store }

/-- Capture the graph that the roots lead to. -/
def capture (journal : Journal σ) (heap : Heap) (roots : List Slot) : Except AuditError Graph :=
  (Capture.capture journal.types heap roots).mapError .ofCapture

/-- The global id of a live object as a root. -/
def idOf (journal : Journal σ) (heap : Heap) (slot : Slot) : Except AuditError GlobalId :=
  (Capture.rootId journal.types heap slot).mapError .ofCapture

/-- The changes between two captured graphs. -/
def compareGraphs (journal : Journal σ) (old new : Graph) : Diff :=
  .between journal.types journal.settings.diffOptions old new

/-- The changes between two live objects. -/
def compare (journal : Journal σ) (old new : Heap × Slot) : Except AuditError Diff := do
  let oldGraph ← journal.capture old.1 [old.2]
  let newGraph ← journal.capture new.1 [new.2]
  .ok (journal.compareGraphs oldGraph newGraph)

/-- The metadata of the next commit, and the journal that has taken its numbers. -/
def stamp (journal : Journal σ) (moment : Moment) (author : String) (properties : Labels) :
    CommitMetadata × Journal σ :=
  let (id, numbering) := journal.numbering.next moment.draw
  let sequence := journal.lastSequence + 1
  (⟨id, author, moment.now, sequence, properties⟩,
    { journal with numbering, lastSequence := sequence })

/-- Store an assembled commit. -/
def persist (journal : Journal σ) (commit : Commit) : Except AuditError Commit × Journal σ :=
  match Store.persist journal.store commit with
  | .ok store => (.ok commit, { journal with store })
  | .error error => (.error (.store error), journal)

/-- Record how a captured graph differs from what is stored.  A commit without snapshots is not
stored. -/
def commitGraph (journal : Journal σ) (moment : Moment) (author : String) (properties : Labels)
    (current : Graph) : Except AuditError Commit × Journal σ :=
  let (metadata, journal) := journal.stamp moment author properties
  match Commit.recording journal.types journal.settings.diffOptions journal.store metadata
      current with
  | .error error => (.error (.store error), journal)
  | .ok commit => if commit.isEmpty then (.ok commit, journal) else journal.persist commit

/-- Record the current state of the objects that the roots lead to. -/
def commit (journal : Journal σ) (moment : Moment) (author : String) (properties : Labels)
    (heap : Heap) (roots : List Slot) : Except AuditError Commit × Journal σ :=
  match journal.capture heap roots with
  | .error error => (.error error, journal)
  | .ok current => journal.commitGraph moment author properties current

/-- End a node together with the value objects it reaches. -/
def delete (journal : Journal σ) (moment : Moment) (author : String) (id : GlobalId) :
    Except AuditError Commit × Journal σ :=
  let (metadata, journal) := journal.stamp moment author .empty
  match Commit.terminating journal.store metadata id with
  | .error error => (.error (.store error), journal)
  | .ok none => (.error (.notFound id), journal)
  | .ok (some commit) => journal.persist commit

/-- End the node of a live object together with the value objects it reaches. -/
def deleteObject (journal : Journal σ) (moment : Moment) (author : String) (heap : Heap)
    (slot : Slot) : Except AuditError Commit × Journal σ :=
  match journal.idOf heap slot with
  | .error error => (.error error, journal)
  | .ok id => journal.delete moment author id

/-- Snapshots of a node that match a query, newest first. -/
def snapshotsOf (journal : Journal σ) (id : GlobalId) (query : Query) :
    Except AuditError (List Snapshot) :=
  (Store.snapshotsOf journal.store id query).mapError .store

/-- The newest snapshot of a node, even if it went away. -/
def latest? (journal : Journal σ) (id : GlobalId) : Except AuditError (Option Snapshot) :=
  (Store.latest? journal.store id).mapError .store

/-- The shadow of a node at a point in history. -/
def shadow (journal : Journal σ) (id : GlobalId) (selector : VersionSelector)
    (scope : ShadowScope) : Except AuditError Shadow :=
  Shadow.of journal.types journal.store journal.numbering.scheme id selector scope

/-- The description of a journal. -/
def describe (journal : Journal σ) : String :=
  Describe.record "CdoLog"
    [("config", Describe.settings journal.settings), ("types", Describe.typeTable journal.types),
      ("commit_ids", Describe.scheme journal.numbering.scheme)]
    true

end Journal
end AuditTrail
