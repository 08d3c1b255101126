import AuditTrail.Commit.Numbering

/-!
# Queries for snapshots

A query asks for the snapshots of a node, newest first.  It may be bounded by a time or by a commit,
and it may be limited in number.
-/

namespace AuditTrail

/-- Upper bound on the commits that a query sees. -/
inductive Bound where
  /-- Commits not after a given one; time and sequence of that commit decide where ids do not. -/
  | commit (id : CommitId) (timestamp sequence : Nat) (scheme : CommitIdScheme)
  /-- Commits not after a time. -/
  | time (timestamp : Nat)
  deriving DecidableEq, Inhabited

/-- Whether a commit lies within the bound. -/
def Bound.admits : Bound → CommitMetadata → Bool
  | commit id _ _ .sequential, metadata => (compare metadata.id id).isLE
  | commit id timestamp sequence .random, metadata =>
    metadata.id == id || metadata.timestamp < timestamp ||
      (metadata.timestamp == timestamp && metadata.sequence ≤ sequence)
  | time timestamp, metadata => metadata.timestamp ≤ timestamp

/-- Which snapshots of a node are asked for. -/
structure Query where
  /-- Only snapshots of commits within this bound. -/
  bound : Option Bound
  /-- At most this many, the newest ones. -/
  limit : Option Nat
  deriving DecidableEq, Inhabited

namespace Query

/-- Every snapshot. -/
def all : Query := ⟨none, none⟩

/-- Only the newest snapshot. -/
def latest : Query := ⟨none, some 1⟩

/-- Only the newest snapshot within a bound. -/
def latestWithin (bound : Bound) : Query := ⟨some bound, some 1⟩

/-- Whether a snapshot lies within the bound, if there is one. -/
def admits (query : Query) (snapshot : Snapshot) : Bool :=
  match query.bound with
  | none => true
  | some bound => bound.admits snapshot.commit

/-- Keep as many as the limit allows. -/
def cut {α : Type} (query : Query) (items : List α) : List α :=
  match query.limit with
  | none => items
  | some limit => items.take limit

/-- Answer the query from a history, newest first. -/
def select (query : Query) (history : List Snapshot) : List Snapshot :=
  query.cut (history.filter query.admits)

end Query
end AuditTrail
