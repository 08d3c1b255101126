import AuditTrail.Proofs.Edit.Shortest

/-!
# Rebuilding a sequence

However elements are compared, carrying out a script that was found rebuilds the right sequence up
to elements that match, and every edit finds its position.  The shortest script is read off a walk
back through the table of distances.  The walk stays inside the table, every step of it is justified
by the distances, and it ends at the first cell.
-/

namespace AuditTrail

namespace Edit

/-- The position of an edit is there; an insertion may also go to the end. -/
def InRange (items : List Captured) : Edit → Prop
  | insert index _ => index ≤ items.length
  | remove index _ | replace index _ _ => index < items.length

/-- The position of each edit is there when the edit is carried out. -/
def AllInRange (items : List Captured) : List Edit → Prop
  | [] => True
  | edit :: script => edit.InRange items ∧ AllInRange (edit.apply items) script

end Edit

namespace Alignment

variable {equal : Captured → Captured → Bool}

/-- The edits of an alignment find their positions behind a finished part. -/
theorem Aligns.allInRange_scriptOf {steps : List Step} {left right : List Captured}
    (aligns : Aligns equal steps left right) (done : List Captured) :
    Edit.AllInRange (done ++ left) (scriptOf done.length steps) := by
  have inside (l : Captured) (left : List Captured) : done.length < (done ++ l :: left).length := by
    rw [List.length_append, List.length_cons]
    omega
  induction aligns generalizing done with
  | nil => trivial
  | @keep l r steps left right _ _ induction =>
      have rest := induction (done ++ [l])
      rw [List.append_assoc, List.length_append] at rest
      exact rest fun _ _ => by simp
  | @replace l r steps left right _ induction =>
      have rest := induction (done ++ [r])
      rw [List.length_append] at rest
      refine ⟨inside l left, ?_⟩
      rw [apply_replace_append]
      exact rest fun _ _ => by simp
  | @remove l steps left right _ induction =>
      refine ⟨inside l left, ?_⟩
      rw [apply_remove_append]
      exact induction done inside
  | @insert r steps left right _ induction =>
      have rest := induction (done ++ [r])
      rw [List.length_append] at rest
      refine ⟨?_, ?_⟩
      · rw [Edit.InRange, List.length_append]
        omega
      · rw [apply_insert_append]
        exact rest fun _ _ => by simp

theorem allInRange_script (alignment : Alignment) (left right : List Captured) :
    Edit.AllInRange left (alignment.script equal left right) := by
  have aligns : Aligns equal _ _ _ := aligns_steps alignment left right
  rw [script_eq]
  exact aligns.allInRange_scriptOf []

section Walking

variable (equal) (table : List (List Nat)) (left right : List Captured)

/-- One turn of the walk back, at the cell of the first `row` elements on the left and the first
`column` on the right: the step that is taken and the cell that it leads to.  No turn is made at the
first cell, and none if a cell or an element that the turn looks at is missing. -/
def turn? : Nat → Nat → Option (Step × Nat × Nat)
  | 0, 0 => none
  | 0, column + 1 => do
    let _here ← cell? table 0 (column + 1)
    let _before ← cell? table 0 column
    let r ← right[column]?
    some (.insert r, 0, column)
  | row + 1, 0 => do
    let here ← cell? table (row + 1) 0
    let above ← cell? table row 0
    let l ← left[row]?
    if here == above + 1 then some (.remove l, row, 0) else none
  | row + 1, column + 1 => do
    let here ← cell? table (row + 1) (column + 1)
    let diagonal ← cell? table row column
    let l ← left[row]?
    let r ← right[column]?
    if here == diagonal && equal l r then some (.keep, row, column)
    else if here == diagonal + 1 then some (.replace l r, row, column)
    else
      let above ← cell? table row (column + 1)
      let before ← cell? table (row + 1) column
      let canRemove := here == above + 1
      let canInsert := here == before + 1
      if canRemove && (!canInsert || compare l r == .lt) then some (.remove l, row, column + 1)
      else some (.insert r, row + 1, column)

/-- The walk back from a cell ends at the first cell with the given steps, the last one first, and
each step leads to a cell that is nearer by what the step costs. -/
inductive Walks : Nat → Nat → List Step → Prop
  /-- The first cell is reached. -/
  | done : Walks 0 0 []
  /-- A turn is made, and the walk goes on. -/
  | turn {row column row' column' : Nat} {step : Step} {steps : List Step}
      (taken : turn? equal table left right row column = some (step, row', column'))
      (justified : cell? table row column = (cell? table row' column').map (step.cost + ·))
      (rest : Walks row' column' steps) : Walks row column (step :: steps)

end Walking

section Turns

variable {left right : List Captured} {row column : Nat}

/-- The first elements of a sequence, the last one of them first. -/
def front (items : List Captured) (count : Nat) : List Captured :=
  (items.take count).reverse

theorem front_succ {items : List Captured} {count : Nat} (inside : count < items.length) :
    front items (count + 1) = items[count] :: front items count := by
  rw [front, List.take_succ_eq_append_getElem inside, List.reverse_append]
  rfl

theorem cell?_front (row_inside : row ≤ left.length) (column_inside : column ≤ right.length) :
    cell? (distances equal left right) row column =
      some (distance equal (front left row) (front right column)) :=
  cell?_distances equal row_inside column_inside

variable (equal) in
/-- The turn that is made at one cell of the table leads to another one, and so does the trace. -/
@[mk_iff]
structure Turns (left right : List Captured) (row column : Nat) (step : Step) (row' column' : Nat) :
    Prop where
  /-- The turn finds everything that it looks at. -/
  taken : turn? equal (distances equal left right) left right row column =
    some (step, row', column')
  /-- The row stays inside the table. -/
  row_le : row' ≤ row
  /-- The column stays inside the table. -/
  column_le : column' ≤ column
  /-- The first cell comes nearer. -/
  nearer : row' + column' < row + column
  /-- The trace takes the same step. -/
  traced : path equal (front left row) (front right column) =
    step :: path equal (front left row') (front right column')

/-- In the first row the last element on the right comes in. -/
theorem turns_first_row (inside : column < right.length) :
    Turns equal left right 0 (column + 1) (.insert right[column]) 0 column where
  taken := by
    rw [turn?, cell?_front (Nat.zero_le _) inside,
      cell?_front (Nat.zero_le _) (Nat.le_of_lt inside), List.getElem?_eq_getElem inside]
    rfl
  row_le := Nat.le_refl 0
  column_le := Nat.le_succ column
  nearer := by omega
  traced := by
    rw [front_succ inside]
    rfl

/-- In the first column the last element on the left goes out. -/
theorem turns_first_column (inside : row < left.length) :
    Turns equal left right (row + 1) 0 (.remove left[row]) row 0 where
  taken := by
    rw [turn?, cell?_front inside (Nat.zero_le _),
      cell?_front (Nat.le_of_lt inside) (Nat.zero_le _), List.getElem?_eq_getElem inside,
      front_succ inside]
    simp [front]
  row_le := Nat.le_succ row
  column_le := Nat.le_refl 0
  nearer := by omega
  traced := by
    rw [front_succ inside]
    rfl

variable (equal) in
/-- Elsewhere, turn and trace decide by the same distances. -/
theorem exists_turns_inside (row_inside : row < left.length)
    (column_inside : column < right.length) :
    ∃ step row' column', Turns equal left right (row + 1) (column + 1) step row' column' := by
  have above_inside := Nat.le_of_lt row_inside
  have before_inside := Nat.le_of_lt column_inside
  simp only [turns_iff]
  rw [turn?, cell?_front row_inside column_inside, cell?_front above_inside before_inside,
    cell?_front above_inside column_inside, cell?_front row_inside before_inside,
    List.getElem?_eq_getElem row_inside, List.getElem?_eq_getElem column_inside]
  simp only [Option.bind_eq_bind, Option.bind_some]
  rw [front_succ row_inside, front_succ column_inside, path, pathRow]
  dsimp only
  split_ifs
  · exact ⟨_, _, _, rfl, by omega, by omega, by omega, rfl⟩
  · exact ⟨_, _, _, rfl, by omega, by omega, by omega, rfl⟩
  · rw [← front_succ column_inside]
    exact ⟨_, _, _, rfl, by omega, by omega, by omega, rfl⟩
  · refine ⟨_, _, _, rfl, by omega, by omega, by omega, ?_⟩
    rw [front_succ row_inside]
    rfl

variable (equal) in
/-- A turn is made at every cell but the first one. -/
theorem exists_turns (row_inside : row ≤ left.length) (column_inside : column ≤ right.length)
    (remaining : 0 < row + column) :
    ∃ step row' column', Turns equal left right row column step row' column' := by
  cases row with
  | zero =>
      cases column with
      | zero => exact absurd remaining (Nat.lt_irrefl 0)
      | succ column => exact ⟨_, _, _, turns_first_row column_inside⟩
  | succ row =>
      cases column with
      | zero => exact ⟨_, _, _, turns_first_column row_inside⟩
      | succ column => exact exists_turns_inside equal row_inside column_inside

variable (equal) in
/-- From every cell of the table the walk back takes the steps of the trace. -/
theorem walks_path (row_inside : row ≤ left.length) (column_inside : column ≤ right.length) :
    Walks equal (distances equal left right) left right row column
      (path equal (front left row) (front right column)) := by
  induction remaining_eq : row + column using Nat.strong_induction_on generalizing row column with
  | _ remaining induction =>
      subst remaining_eq
      rcases Nat.eq_zero_or_pos (row + column) with reached | remaining
      · obtain ⟨rfl, rfl⟩ := Nat.add_eq_zero_iff.mp reached
        exact .done
      · obtain ⟨step, row', column', turns⟩ :=
          exists_turns equal row_inside column_inside remaining
        have row_inside' := turns.row_le.trans row_inside
        have column_inside' := turns.column_le.trans column_inside
        have cost : distance equal (front left row) (front right column) =
            step.cost + distance equal (front left row') (front right column') := by
          rw [← cost_path, turns.traced, cost_cons, cost_path]
        have justified : cell? (distances equal left right) row column =
            (cell? (distances equal left right) row' column').map (step.cost + ·) := by
          rw [cell?_front row_inside column_inside, cell?_front row_inside' column_inside', cost,
            Option.map_some]
        rw [turns.traced]
        exact .turn turns.taken justified
          (induction _ turns.nearer row_inside' column_inside' rfl)

/-- The walk back from the last cell takes the steps of the trace. -/
theorem walks_trace (left right : List Captured) :
    Walks equal (distances equal left right) left right left.length right.length
      (trace equal (distances equal left right) left.reverse right.reverse) := by
  have walks := walks_path equal (Nat.le_refl left.length) (Nat.le_refl right.length)
  rw [front, front, List.take_length, List.take_length] at walks
  rw [trace_eq_path (tabulates_distances left right)]
  exact walks

end Turns

/-- Whatever the comparison, both ways to find a script rebuild the right sequence up to elements
that match, no edit misses its position, and the walk that a script is read off ends without
leaving the table.  Native equality leaves no difference. -/
theorem script_rebuilds (equal : Captured → Captured → Bool) (alignment : Alignment)
    (left right : List Captured) :
    List.Forall₂ (StandsFor equal left)
        (Edit.applyAll left (alignment.script equal left right)) right ∧
      Edit.AllInRange left (alignment.script equal left right) ∧
      Walks equal (distances equal left right) left right left.length right.length
        (trace equal (distances equal left right) left.reverse right.reverse) ∧
      Edit.applyAll left (alignment.script (· == ·) left right) == right :=
  ⟨standsFor_applyAll alignment left right, allInRange_script alignment left right,
    walks_trace left right,
    beq_iff_forall₂.mpr (matching_applyAll (fun _ => BEq.rfl) alignment left right)⟩

end Alignment
end AuditTrail
