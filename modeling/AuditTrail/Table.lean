/-!
# Keyed tables

A table keeps one row per key, in strictly increasing order of the keys.  Equal contents therefore
have one representation, so two tables are equal exactly when they list the same rows.
-/

namespace AuditTrail

/-- Rows in strictly increasing order of `key`. -/
structure Table {ν κ : Type} [Ord κ] (key : ν → κ) where
  /-- The rows, least key first. -/
  rows : List ν
  /-- Neighbouring and distant rows alike stand in increasing order, so no key occurs twice. -/
  increasing : rows.Pairwise fun a b => compare (key a) (key b) = .lt

namespace Table

variable {ν κ : Type} [Ord κ] {key : ν → κ}

/-- The table without rows. -/
def empty : Table key := ⟨[], .nil⟩

instance : Inhabited (Table key) := ⟨empty⟩

/-- The row stored under `k`. -/
def find? (table : Table key) (k : κ) : Option ν :=
  table.rows.find? fun row => compare (key row) k == .eq

/-- Whether a row is stored under `k`. -/
def contains (table : Table key) (k : κ) : Bool :=
  table.rows.any fun row => compare (key row) k == .eq

/-- The keys in increasing order. -/
def keys (table : Table key) : List κ := table.rows.map key

/-- Number of rows. -/
def size (table : Table key) : Nat := table.rows.length

/-- Remove the row stored under `k`. -/
def erase (table : Table key) (k : κ) : Table key where
  rows := table.rows.filter fun row => compare (key row) k != .eq
  increasing := table.increasing.filter _

/-- Place `row` among increasing `rows`, replacing a row of the same key. -/
def place (key : ν → κ) (row : ν) : List ν → List ν
  | [] => [row]
  | head :: tail =>
    match compare (key row) (key head) with
    | .lt => row :: head :: tail
    | .eq => row :: tail
    | .gt => head :: place key row tail

theorem mem_place {row other : ν} {rows : List ν} (member : other ∈ place key row rows) :
    other = row ∨ other ∈ rows := by
  induction rows with
  | nil => exact .inl (List.mem_singleton.mp member)
  | cons head tail ih =>
    unfold place at member
    split at member
    · exact List.mem_cons.mp member
    · rcases List.mem_cons.mp member with rfl | inTail
      · exact .inl rfl
      · exact .inr (List.mem_cons_of_mem _ inTail)
    · rcases List.mem_cons.mp member with rfl | inTail
      · exact .inr List.mem_cons_self
      · exact (ih inTail).imp id (List.mem_cons_of_mem _)

theorem pairwise_place [Std.TransOrd κ] {row : ν} {rows : List ν}
    (increasing : rows.Pairwise fun a b => compare (key a) (key b) = .lt) :
    (place key row rows).Pairwise fun a b => compare (key a) (key b) = .lt := by
  induction rows with
  | nil => exact List.pairwise_singleton _ _
  | cons head tail ih =>
    obtain ⟨below, tailIncreasing⟩ := List.pairwise_cons.mp increasing
    unfold place
    split
    next less =>
      refine List.pairwise_cons.mpr ⟨fun other member => ?_, increasing⟩
      rcases List.mem_cons.mp member with rfl | inTail
      · exact less
      · exact Std.TransCmp.lt_trans less (below other inTail)
    next same =>
      refine List.pairwise_cons.mpr ⟨fun other member => ?_, tailIncreasing⟩
      exact Std.TransCmp.lt_of_eq_of_lt same (below other member)
    next greater =>
      refine List.pairwise_cons.mpr ⟨fun other member => ?_, ih tailIncreasing⟩
      rcases mem_place member with rfl | inTail
      · exact Std.OrientedCmp.lt_of_gt greater
      · exact below other inTail

/-- Store `row` under its key, replacing the row stored there before. -/
def put [Std.TransOrd κ] (table : Table key) (row : ν) : Table key where
  rows := place key row table.rows
  increasing := pairwise_place table.increasing

/-- Store the rows one after another; the last row of a key stays. -/
def ofList [Std.TransOrd κ] (rows : List ν) : Table key :=
  rows.foldl put empty

theorem ext {left right : Table key} (same : left.rows = right.rows) : left = right := by
  cases left
  cases right
  cases same
  rfl

instance [DecidableEq ν] : DecidableEq (Table key) := fun left right =>
  if same : left.rows = right.rows then .isTrue (ext same)
  else .isFalse fun equal => same (congrArg rows equal)

end Table
end AuditTrail
