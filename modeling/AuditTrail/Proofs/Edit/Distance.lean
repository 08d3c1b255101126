import AuditTrail.Edit.Alignment
import Mathlib

/-!
# Edit distances

The distance of two sequences is defined by recursion on their last elements, so all sequences
here are given in reverse.  The table that alignments are read off tabulates this distance for all
prefixes, and the trace through the table depends on nothing but the distances.
-/

namespace AuditTrail.Alignment

variable (equal : Captured → Captured → Bool)

/-- Distances from a sequence that ends in `l`, where `next` gives the distances from the sequence
without `l`. -/
def distanceRow (l : Captured) (next : List Captured → Nat) : List Captured → Nat
  | [] => next [] + 1
  | r :: right =>
    let cost := if equal l r then 0 else 1
    min (min (next right + cost) (next (r :: right) + 1)) (distanceRow l next right + 1)

/-- The least number of edits between two sequences that are given in reverse. -/
def distance : List Captured → List Captured → Nat
  | [], right => right.length
  | l :: left, right => distanceRow equal l (distance left) right

/-- Trace back from a sequence that ends in `l`, where `next` traces back from the sequence `left`
without `l`. -/
def pathRow (l : Captured) (left : List Captured) (next : List Captured → List Step) :
    List Captured → List Step
  | [] => .remove l :: next []
  | r :: right =>
    let here := distance equal (l :: left) (r :: right)
    let diagonal := distance equal left right
    if here == diagonal && equal l r then .keep :: next right
    else if here == diagonal + 1 then .replace l r :: next right
    else
      let canRemove := here == distance equal left (r :: right) + 1
      let canInsert := here == distance equal (l :: left) right + 1
      if canRemove && (!canInsert || compare l r == .lt) then .remove l :: next (r :: right)
      else .insert r :: pathRow l left next right

/-- The trace of a shortest alignment, read off the distances themselves. -/
def path : List Captured → List Captured → List Step
  | [], right => right.map .insert
  | l :: left, right => pathRow equal l left (path left) right

section Equations

@[simp]
theorem distance_nil (right : List Captured) : distance equal [] right = right.length := rfl

@[simp]
theorem distance_cons_nil (l : Captured) (left : List Captured) :
    distance equal (l :: left) [] = distance equal left [] + 1 := rfl

theorem distance_cons_cons (l r : Captured) (left right : List Captured) :
    distance equal (l :: left) (r :: right) =
      min (min (distance equal left right + if equal l r then 0 else 1)
        (distance equal left (r :: right) + 1)) (distance equal (l :: left) right + 1) := rfl

@[simp]
theorem path_nil (right : List Captured) : path equal [] right = right.map .insert := rfl

@[simp]
theorem path_cons_nil (l : Captured) (left : List Captured) :
    path equal (l :: left) [] = .remove l :: path equal left [] := rfl

end Equations

section Bounds

theorem distance_flip (left right : List Captured) :
    distance (fun a b => equal b a) right left = distance equal left right := by
  induction left generalizing right with
  | nil =>
      induction right with
      | nil => rfl
      | cons r right induction => rw [distance_cons_nil, induction, distance_nil, distance_nil,
          List.length_cons]
  | cons l left induction_left =>
      induction right with
      | nil =>
          have before := induction_left []
          rw [distance_nil] at before
          rw [distance_nil, distance_cons_nil, List.length_cons, before]
      | cons r right induction_right =>
          rw [distance_cons_cons, distance_cons_cons, induction_left right, induction_left,
            induction_right, min_right_comm]

theorem distance_cons_right_le (left right : List Captured) (r : Captured) :
    distance equal left (r :: right) ≤ distance equal left right + 1 := by
  cases left with
  | nil => rw [distance_nil, distance_nil, List.length_cons]
  | cons l left => exact min_le_right _ _

theorem le_distance_cons_left (l : Captured) (left right : List Captured) :
    distance equal left right ≤ distance equal (l :: left) right + 1 := by
  induction right with
  | nil => exact Nat.le_add_right _ 2
  | cons r right induction =>
      have grown := distance_cons_right_le equal left right r
      rw [distance_cons_cons]
      split <;> omega

theorem le_distance_cons_right (left right : List Captured) (r : Captured) :
    distance equal left right ≤ distance equal left (r :: right) + 1 := by
  rw [← distance_flip, ← distance_flip equal left (r :: right)]
  exact le_distance_cons_left _ r right left

/-- Matching equal last elements costs nothing, and nothing costs less. -/
theorem distance_of_equal {l r : Captured} (matching : equal l r) (left right : List Captured) :
    distance equal (l :: left) (r :: right) = distance equal left right := by
  have from_left := le_distance_cons_left equal l left right
  have from_right := le_distance_cons_right equal left right r
  rw [distance_cons_cons, if_pos matching]
  omega

/-- Where the last elements differ, they are replaced, or one of them goes out or comes in. -/
theorem distance_of_not_equal {l r : Captured} (different : ¬ equal l r)
    (left right : List Captured) :
    distance equal (l :: left) (r :: right) = distance equal left right + 1 ∨
      distance equal (l :: left) (r :: right) = distance equal left (r :: right) + 1 ∨
        distance equal (l :: left) (r :: right) = distance equal (l :: left) right + 1 := by
  rw [distance_cons_cons, if_neg different]
  omega

end Bounds

section Table

/-- One row of the table: the distances from `left` to `passed` and to all that continue it with
elements of `right`. -/
def rowOf (left passed : List Captured) : List Captured → List Nat
  | [] => [distance equal left passed]
  | r :: right => distance equal left passed :: rowOf left (r :: passed) right

theorem rowOf_nil (passed right : List Captured) :
    rowOf equal [] passed right = List.range' passed.length (right.length + 1) := by
  induction right generalizing passed with
  | nil => rfl
  | cons r right induction =>
      rw [rowOf, induction, List.length_cons, List.length_cons]
      rfl

theorem rowOf_eq_cons (left passed right : List Captured) :
    ∃ rest, rowOf equal left passed right = distance equal left passed :: rest := by
  cases right <;> exact ⟨_, rfl⟩

theorem fillRow_rowOf (l : Captured) (left passed right : List Captured) :
    fillRow equal l (distance equal left passed) (distance equal (l :: left) passed)
        (rowOf equal left passed right).tail right =
      (rowOf equal (l :: left) passed right).tail := by
  induction right generalizing passed with
  | nil => rfl
  | cons r right induction =>
      obtain ⟨above, above_eq⟩ := rowOf_eq_cons equal left (r :: passed) right
      obtain ⟨here, here_eq⟩ := rowOf_eq_cons equal (l :: left) (r :: passed) right
      have filled := induction (r :: passed)
      rw [above_eq, here_eq] at filled
      simp only [rowOf, List.tail_cons, above_eq, here_eq, fillRow]
      rw [← distance_cons_cons]
      exact congrArg _ filled

theorem nextRow_rowOf (l : Captured) (left right : List Captured) :
    nextRow equal right l (rowOf equal left [] right) = rowOf equal (l :: left) [] right := by
  obtain ⟨above, above_eq⟩ := rowOf_eq_cons equal left [] right
  obtain ⟨here, here_eq⟩ := rowOf_eq_cons equal (l :: left) [] right
  have filled := fillRow_rowOf equal l left [] right
  rw [above_eq, here_eq] at filled
  rw [above_eq, here_eq, nextRow]
  exact congrArg _ filled

/-- The distance in a cell of the table, if there is such a cell. -/
def cell? (table : List (List Nat)) (row column : Nat) : Option Nat := do
  let distances ← table[row]?
  distances[column]?

theorem cell_eq_getD (table : List (List Nat)) (row column : Nat) :
    cell table row column = (cell? table row column).getD 0 := by
  rw [cell, cell?, List.getD_eq_getElem?_getD, List.getD_eq_getElem?_getD]
  cases table[row]? <;> rfl

theorem getElem?_rowOf (left passed right : List Captured) {column : Nat}
    (inside : column ≤ right.length) :
    (rowOf equal left passed right)[column]? =
      some (distance equal left ((right.take column).reverse ++ passed)) := by
  induction right generalizing passed column with
  | nil =>
      obtain rfl : column = 0 := by simpa using inside
      rfl
  | cons r right induction =>
      cases column with
      | zero => rfl
      | succ column =>
          rw [rowOf, List.getElem?_cons_succ, induction _ (by simpa using inside),
            List.take_succ_cons, List.reverse_cons, List.append_assoc, List.singleton_append]

theorem getElem?_rowsFrom (passed left right : List Captured) {row : Nat}
    (inside : row ≤ left.length) :
    (rowsFrom equal right (rowOf equal passed [] right) left)[row]? =
      some (rowOf equal ((left.take row).reverse ++ passed) [] right) := by
  induction left generalizing passed row with
  | nil =>
      obtain rfl : row = 0 := by simpa using inside
      rfl
  | cons l left induction =>
      cases row with
      | zero => rfl
      | succ row =>
          rw [rowsFrom, List.getElem?_cons_succ, nextRow_rowOf, induction _ (by simpa using inside),
            List.take_succ_cons, List.reverse_cons, List.append_assoc, List.singleton_append]

/-- Every cell of the table is there and holds the distance of the prefixes that it stands for. -/
theorem cell?_distances {left right : List Captured} {row column : Nat}
    (row_inside : row ≤ left.length) (column_inside : column ≤ right.length) :
    cell? (distances equal left right) row column =
      some (distance equal (left.take row).reverse (right.take column).reverse) := by
  have first_row : List.range (right.length + 1) = rowOf equal [] [] right := by
    rw [rowOf_nil, List.range_eq_range']
    rfl
  rw [cell?, distances, first_row, getElem?_rowsFrom equal [] left right row_inside,
    List.append_nil, Option.bind_eq_bind, Option.bind_some,
    getElem?_rowOf equal _ [] right column_inside, List.append_nil]

theorem cell_distances {left right : List Captured} {row column : Nat}
    (row_inside : row ≤ left.length) (column_inside : column ≤ right.length) :
    cell (distances equal left right) row column =
      distance equal (left.take row).reverse (right.take column).reverse := by
  rw [cell_eq_getD, cell?_distances equal row_inside column_inside, Option.getD_some]

end Table

section Trace

/-- The table holds the distances of all prefixes of two sequences given in reverse. -/
def Tabulates (table : List (List Nat)) (left right : List Captured) : Prop :=
  ∀ leftPart rightPart, leftPart <:+ left → rightPart <:+ right →
    cell table leftPart.length rightPart.length = distance equal leftPart rightPart

variable {equal} {table : List (List Nat)}

private theorem take_reverse_of_suffix {part whole : List Captured}
    (suffix : part <:+ whole.reverse) :
    (whole.take part.length).reverse = part := by
  obtain ⟨front, front_eq⟩ := suffix
  have whole_eq : whole = part.reverse ++ front.reverse := by
    rw [← List.reverse_append, front_eq, List.reverse_reverse]
  rw [whole_eq, List.take_left' List.length_reverse, List.reverse_reverse]

theorem tabulates_distances (left right : List Captured) :
    Tabulates equal (distances equal left right) left.reverse right.reverse := by
  intro leftPart rightPart left_suffix right_suffix
  have left_inside := left_suffix.length_le
  have right_inside := right_suffix.length_le
  rw [List.length_reverse] at left_inside right_inside
  rw [cell_distances equal left_inside right_inside, take_reverse_of_suffix left_suffix,
    take_reverse_of_suffix right_suffix]

theorem Tabulates.tail {l : Captured} {left right : List Captured}
    (tabulates : Tabulates equal table (l :: left) right) : Tabulates equal table left right :=
  fun _ _ suffix => tabulates _ _ (suffix.trans (List.suffix_cons l left))

theorem traceRow_eq_pathRow {l : Captured} {left right : List Captured}
    {next next' : List Captured → List Step} (tabulates : Tabulates equal table (l :: left) right)
    (continues : ∀ rest, rest <:+ right → next rest = next' rest) :
    traceRow equal table l left.length next right = pathRow equal l left next' right := by
  induction right with
  | nil => rw [traceRow, pathRow, continues [] List.suffix_rfl]
  | cons r right induction =>
      have shorter := List.suffix_cons r right
      have smaller := List.suffix_cons l left
      have here := tabulates (l :: left) (r :: right) List.suffix_rfl List.suffix_rfl
      have diagonal := tabulates left right smaller shorter
      have above := tabulates left (r :: right) smaller List.suffix_rfl
      have before := tabulates (l :: left) right List.suffix_rfl shorter
      simp only [List.length_cons] at here diagonal above before
      have continued := induction (fun _ _ left_suffix right_suffix =>
        tabulates _ _ left_suffix (right_suffix.trans shorter))
        fun rest suffix => continues rest (suffix.trans shorter)
      simp only [traceRow, pathRow]
      rw [here, diagonal, above, before, continues right shorter,
        continues (r :: right) List.suffix_rfl, continued]

/-- The trace through a table of distances is the one read off the distances themselves. -/
theorem trace_eq_path {left right : List Captured} (tabulates : Tabulates equal table left right) :
    trace equal table left right = path equal left right := by
  induction left generalizing right with
  | nil => rfl
  | cons l left induction =>
      rw [trace, path]
      exact traceRow_eq_pathRow tabulates fun rest suffix =>
        induction fun _ _ left_suffix right_suffix =>
          tabulates.tail _ _ left_suffix (right_suffix.trans suffix)

end Trace

end AuditTrail.Alignment
