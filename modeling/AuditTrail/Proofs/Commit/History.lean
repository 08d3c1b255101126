import AuditTrail.Commit
import Mathlib

/-!
# Histories

In the history of a node every snapshot follows the one before it.  Read from the start, its
versions then count from one, each snapshot names the commit before, and lives of the node alternate
with its absence.
-/

namespace AuditTrail.Snapshot

/-- A snapshot continues the history of its node behind the newest snapshot before. -/
structure Follows (before : Option Snapshot) (snapshot : Snapshot) : Prop where
  /-- Versions count from one. -/
  version : snapshot.version = (before.map (·.version)).getD 0 + 1
  /-- The commit before is named. -/
  previous : snapshot.previous = before.map (·.commit.id)
  /-- A node comes into being at the start of its history and after it went away. -/
  initial : snapshot.kind = .initial ↔ ∀ other ∈ before, other.kind = .terminal
  /-- Nothing is left of a node that went away. -/
  ended : snapshot.kind = .terminal → snapshot.state = .empty

/-- In a history, newest first, every snapshot follows the one before it. -/
def Chained : List Snapshot → Prop
  | [] => True
  | snapshot :: older => snapshot.Follows older.head? ∧ Chained older

/-- A history, oldest first, is numbered and linked, and lives of the node are told apart. -/
structure WellFormed (history : List Snapshot) : Prop where
  /-- Versions count from one. -/
  versions : history.map (·.version) = List.range' 1 history.length
  /-- The first snapshot has none before, and the node comes into being with it. -/
  first : ∀ snapshot ∈ history.head?, snapshot.previous = none ∧ snapshot.kind = .initial
  /-- Every other snapshot names the commit of the one before; the node comes into being again
  exactly if it went away with that one, and does not go away twice. -/
  next : history.IsChain fun before after =>
    after.previous = some before.commit.id ∧ (after.kind = .initial ↔ before.kind = .terminal) ∧
      (before.kind = .terminal → after.kind ≠ .terminal)
  /-- Nothing is left of a node that went away. -/
  ended : ∀ snapshot ∈ history, snapshot.kind = .terminal → snapshot.state = .empty

theorem version_of_chained {history : List Snapshot} (chained : Chained history) :
    (history.head?.map (·.version)).getD 0 = history.length := by
  induction history with
  | nil => rfl
  | cons snapshot older induction =>
      rw [List.head?_cons, Option.map_some, Option.getD_some, chained.1.version,
        induction chained.2, List.length_cons]

/-- Histories whose snapshots follow one another are well formed. -/
theorem wellFormed_of_chained {history : List Snapshot} (chained : Chained history) :
    WellFormed history.reverse := by
  induction history with
  | nil => exact ⟨rfl, fun _ member => (nomatch member), .nil, fun _ member => (nomatch member)⟩
  | cons snapshot older induction =>
      obtain ⟨follows, older_chained⟩ := chained
      have rest := induction older_chained
      rw [List.reverse_cons]
      refine ⟨?_, ?_, ?_, ?_⟩
      · rw [List.map_append, rest.versions, List.map_singleton, follows.version,
          version_of_chained older_chained, List.length_append, List.length_singleton,
          List.length_reverse, List.range'_concat, one_mul, add_comm older.length]
      · cases older with
        | nil =>
            rintro first member
            obtain rfl := Option.some.inj member
            exact ⟨follows.previous, follows.initial.mpr fun _ absent => (nomatch absent)⟩
        | cons head tail =>
            rw [List.head?_append_of_ne_nil _ (by simp)]
            exact rest.first
      · refine List.isChain_append.mpr ⟨rest.next, .singleton snapshot, ?_⟩
        intro before member after last
        obtain rfl := Option.some.inj last
        rw [List.getLast?_reverse] at member
        rw [Option.mem_def.mp member] at follows
        have initial : snapshot.kind = .initial ↔ before.kind = .terminal := by
          simpa using follows.initial
        refine ⟨follows.previous, initial, fun ended => ?_⟩
        rw [initial.mpr ended]
        exact SnapshotKind.noConfusion
      · intro other member
        rcases List.mem_append.mp member with member | member
        · exact rest.ended other member
        · rw [List.mem_singleton.mp member]
          exact follows.ended

end AuditTrail.Snapshot
