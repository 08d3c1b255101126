import AuditTrail.Commit

/-!
# Numbering commits

Commit ids are either numbered one after another, so that ids order commits, or drawn at random, so
that ids only tell commits apart.
-/

namespace AuditTrail

/-- How commit ids are allocated and what their order means. -/
inductive CommitIdScheme where
  /-- Consecutive numbers; ids order commits. -/
  | sequential
  /-- Random numbers; commits are ordered by time and then by local sequence. -/
  | random
  deriving DecidableEq, Inhabited

/-- Where the next commit id comes from. -/
inductive Numbering where
  /-- Consecutive numbers; `last` was the last one. -/
  | sequential (last : Nat)
  /-- Drawn numbers. -/
  | random
  deriving DecidableEq, Inhabited

namespace Numbering

/-- The numbering that continues after the highest stored id. -/
def startingAfter (scheme : CommitIdScheme) (head : Option CommitId) : Numbering :=
  match scheme with
  | .sequential => sequential ((head.map (·.major)).getD 0)
  | .random => random

/-- The scheme that a numbering follows. -/
def scheme : Numbering → CommitIdScheme
  | sequential _ => .sequential
  | random => .random

/-- The largest drawn number. -/
def largestDraw : Nat := Nat.pow 2 63 - 1

/-- The id of a draw: any natural is brought between one and `largestDraw`. -/
def ofDraw (draw : Nat) : CommitId := ⟨draw % largestDraw + 1, 0⟩

/-- The next id, and where the one after it comes from.  Only a random numbering uses the draw. -/
def next (draw : Nat) : Numbering → CommitId × Numbering
  | sequential last => (⟨last + 1, 0⟩, sequential (last + 1))
  | random => (ofDraw draw, random)

end Numbering
end AuditTrail
