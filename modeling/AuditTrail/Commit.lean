import AuditTrail.Diff

/-!
# Commits

A commit records who changed what and when.  It carries the changes and, for every node that
changed, a snapshot of its new state; the snapshots of a node carry consecutive version numbers.
-/

namespace AuditTrail

/-- Name of a commit. -/
structure CommitId where
  /-- Leading number. -/
  major : Nat
  /-- Trailing number. -/
  minor : Nat
  deriving DecidableEq, Inhabited

namespace CommitId

/-- Order of ids: by the leading, then by the trailing number. -/
def order : CommitId → CommitId → Ordering := compareLex (compareOn major) (compareOn minor)

instance : Ord CommitId := ⟨order⟩

instance : Std.TransOrd CommitId := by
  change Std.TransCmp (compareLex _ _)
  infer_instance

instance : Std.LawfulEqOrd CommitId where
  eq_of_compare {left right} equal := by
    obtain ⟨majors, minors⟩ := Ordering.then_eq_eq.mp equal
    have majors : compare left.major right.major = .eq := majors
    have minors : compare left.minor right.minor = .eq := minors
    cases left
    cases right
    cases Std.LawfulEqCmp.eq_of_compare majors
    cases Std.LawfulEqCmp.eq_of_compare minors
    rfl

/-- A number with at least two digits. -/
def twoDigits (n : Nat) : String := if n < 10 then "0" ++ toString n else toString n

/-- The printed form. -/
def display (id : CommitId) : String := toString id.major ++ "." ++ twoDigits id.minor

end CommitId

/-- Texts by name, in the order of the names. -/
abbrev Labels := Table (Prod.fst : String × String → String)

/-- Who committed what and when. -/
structure CommitMetadata where
  /-- Name of the commit. -/
  id : CommitId
  /-- Who committed. -/
  author : String
  /-- Milliseconds since the start of 1970. -/
  timestamp : Nat
  /-- Position in the order of local writes. -/
  sequence : Nat
  /-- Further properties of the commit. -/
  properties : Labels
  deriving DecidableEq, Inhabited

/-- Place of a snapshot in the life of its node. -/
inductive SnapshotKind where
  /-- The node came into being. -/
  | initial
  /-- The node changed. -/
  | update
  /-- The node went away. -/
  | terminal
  deriving DecidableEq, Inhabited

namespace SnapshotKind

/-- The name of the kind. -/
def name : SnapshotKind → String
  | initial => "Initial"
  | update => "Update"
  | terminal => "Terminal"

/-- The number of the kind. -/
def code : SnapshotKind → Nat
  | initial => 1
  | update => 2
  | terminal => 3

end SnapshotKind

/-- The state of one node as of one commit. -/
structure Snapshot where
  /-- The node. -/
  id : GlobalId
  /-- Name of its type at that time. -/
  typeName : String
  /-- The commit that wrote the snapshot. -/
  commit : CommitMetadata
  /-- Place in the life of the node. -/
  kind : SnapshotKind
  /-- The captured properties; none of a node that went away. -/
  state : State
  /-- Names of the properties that the commit changed. -/
  changed : List String
  /-- Number of the snapshot among those of its node, from one. -/
  version : Nat
  /-- The commit of the snapshot before. -/
  previous : Option CommitId
  deriving Inhabited

namespace Snapshot

/-- Whether the node went away. -/
def isTerminal (snapshot : Snapshot) : Bool := snapshot.kind == .terminal

/-- The captured node. -/
def node (snapshot : Snapshot) : Node := ⟨snapshot.id, snapshot.typeName, snapshot.state⟩

/-- The snapshot that follows `previous` in the history of its node, or starts it. -/
def following (metadata : CommitMetadata) (node : Node) (kind : SnapshotKind)
    (changed : List String) (previous : Option Snapshot) : Snapshot where
  id := node.id
  typeName := node.typeName
  commit := metadata
  kind
  state := node.state
  changed
  version := (previous.map (·.version)).getD 0 + 1
  previous := previous.map (·.commit.id)

end Snapshot

/-- Changes with the snapshots that record them. -/
structure Commit where
  /-- Who committed what and when. -/
  metadata : CommitMetadata
  /-- What changed. -/
  diff : Diff
  /-- The new states, in the order of the nodes. -/
  snapshots : List Snapshot
  deriving Inhabited

namespace Commit

/-- Name of the commit. -/
def id (commit : Commit) : CommitId := commit.metadata.id

/-- Whether the commit records nothing. -/
def isEmpty (commit : Commit) : Bool := commit.snapshots.isEmpty

end Commit
end AuditTrail
