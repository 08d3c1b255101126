import AuditTrail.Journal

/-!
# Auditors

An auditor owns a journal and answers one command after another, in the order of their arrival.
Everything that was stored is announced as an event.  A store that breaks off costs the command its
answer but leaves the auditor in service; once it is shut down, it answers no command any more.
-/

namespace AuditTrail

/-- What an auditor can be asked for. -/
inductive Command where
  /-- Record the current state of the objects that the roots lead to. -/
  | commit (author : String) (properties : Labels) (heap : Heap) (roots : List Slot)
  /-- End a node together with the value objects it reaches. -/
  | delete (author : String) (id : GlobalId)
  /-- Rebuild a node at a point in history. -/
  | shadow (id : GlobalId) (selector : VersionSelector) (scope : ShadowScope)
  /-- List the snapshots of a node that match a query. -/
  | snapshots (id : GlobalId) (query : Query)
  /-- Answer no command any more. -/
  | shutdown

/-- What an auditor answers. -/
inductive Answer where
  /-- The commit of a recording or an ending. -/
  | commit (commit : Commit)
  /-- Rebuilt objects. -/
  | shadow (shadow : Shadow)
  /-- Snapshots, newest first. -/
  | snapshots (found : List Snapshot)
  /-- The auditor has shut down. -/
  | stopped

/-- What an auditor announces. -/
inductive Event where
  /-- A commit with snapshots was stored. -/
  | committed (id : CommitId) (author : String) (snapshots : Nat)
  /-- A node was ended. -/
  | deleted (target : GlobalId) (id : CommitId)
  deriving DecidableEq

/-- Why an auditor gives no answer. -/
inductive AuditorError where
  /-- The journal refuses. -/
  | journal (error : AuditError)
  /-- The store broke off. -/
  | taskFailed
  /-- The auditor has shut down. -/
  | channelClosed
  deriving DecidableEq

namespace AuditorError

/-- The failure of a command whose operation failed. -/
def ofAudit : AuditError → AuditorError
  | .store .brokenOff => taskFailed
  | error => journal error

/-- The wording of an error. -/
def message : AuditorError → String
  | journal error => error.message
  | taskFailed => "audit task failed"
  | channelClosed => "audit runtime channel closed"

end AuditorError

/-- A journal in service. -/
structure Auditor (σ : Type) where
  /-- The journal that commands are carried out on. -/
  journal : Journal σ
  /-- Whether commands are still answered. -/
  isRunning : Bool

/-- The outcome of a command. -/
structure Reply (σ : Type) where
  /-- The answer, if there is one. -/
  result : Except AuditorError Answer
  /-- What is announced. -/
  events : List Event
  /-- The auditor afterwards. -/
  auditor : Auditor σ

namespace Auditor

variable {σ : Type} [Store σ]

/-- An auditor that owns a journal. -/
def spawn (journal : Journal σ) : Auditor σ := ⟨journal, true⟩

/-- The reply to a command that may write: what it stored is announced. -/
def written (outcome : Except AuditError Commit × Journal σ) (announce : Commit → List Event) :
    Reply σ :=
  match outcome with
  | (.ok commit, journal) => ⟨.ok (.commit commit), announce commit, spawn journal⟩
  | (.error error, journal) => ⟨.error (.ofAudit error), [], spawn journal⟩

/-- The reply to a command that only reads. -/
def read {α : Type} (journal : Journal σ) (wrap : α → Answer) (outcome : Except AuditError α) :
    Reply σ :=
  ⟨(outcome.map wrap).mapError .ofAudit, [], spawn journal⟩

/-- The announcement of a commit; an empty one was not stored. -/
def announceCommit (commit : Commit) : List Event :=
  if commit.isEmpty then []
  else [.committed commit.id commit.metadata.author commit.snapshots.length]

/-- Carry out a command on a running journal. -/
def serve (journal : Journal σ) (moment : Moment) : Command → Reply σ
  | .commit author properties heap roots =>
    written (journal.commit moment author properties heap roots) announceCommit
  | .delete author id =>
    written (journal.delete moment author id) fun commit => [.deleted id commit.id]
  | .shadow id selector scope => read journal .shadow (journal.shadow id selector scope)
  | .snapshots id query => read journal .snapshots (journal.snapshotsOf id query)
  | .shutdown => ⟨.ok .stopped, [], ⟨journal, false⟩⟩

/-- Answer a command. -/
def handle (auditor : Auditor σ) (moment : Moment) (command : Command) : Reply σ :=
  if auditor.isRunning then serve auditor.journal moment command
  else ⟨.error .channelClosed, [], auditor⟩

end Auditor
end AuditTrail
