import AuditTrail.Proofs.Edit.Script

/-!
# Shortest scripts

An edit brings a sequence at most one nearer to any other sequence, wherever it applies, so a script
has at least as many edits as the distance that it covers.  The script that is read off the table
has exactly as many edits as the distance between its ends, hence no script is shorter.
-/

namespace AuditTrail

namespace Edit

/-- What one edit can make of a sequence. -/
inductive Outcome : List Captured → List Captured → Prop
  /-- The position is not there. -/
  | unchanged (items : List Captured) : Outcome items items
  /-- An element came in. -/
  | inserted (front back : List Captured) (value : Captured) :
      Outcome (front ++ back) (front ++ value :: back)
  /-- An element went out. -/
  | removed (front back : List Captured) (value : Captured) :
      Outcome (front ++ value :: back) (front ++ back)
  /-- An element gave way to another one. -/
  | replaced (front back : List Captured) (old new : Captured) :
      Outcome (front ++ old :: back) (front ++ new :: back)

theorem outcome_apply (edit : Edit) (items : List Captured) : Outcome items (edit.apply items) := by
  have split {index : Nat} (inside : index < items.length) :
      items = items.take index ++ items[index] :: items.drop (index + 1) := by
    rw [List.cons_getElem_drop_succ, List.take_append_drop]
  cases edit with
  | insert index value =>
      -- An insertion always finds a position: one beyond the end goes to the end.
      rw [apply]
      generalize position_eq : min index items.length = position
      have inside : position ≤ items.length := position_eq ▸ min_le_right _ _
      have inserted := Outcome.inserted (items.take position) (items.drop position) value
      rw [List.take_append_drop] at inserted
      have front_length : (items.take position).length = position := List.length_take_of_le inside
      have carried := Alignment.insertIdx_append_length (items.take position)
        (items.drop position) value
      rw [List.take_append_drop, front_length] at carried
      rw [carried]
      exact inserted
  | remove index value =>
      by_cases inside : index < items.length
      · have removed := Outcome.removed (items.take index) (items.drop (index + 1)) items[index]
        rw [← split inside] at removed
        rw [apply, List.eraseIdx_eq_take_drop_succ]
        exact removed
      · rw [apply, List.eraseIdx_of_length_le (Nat.le_of_not_lt inside)]
        exact .unchanged items
  | replace index old new =>
      by_cases inside : index < items.length
      · have replaced :=
          Outcome.replaced (items.take index) (items.drop (index + 1)) items[index] new
        rw [← split inside] at replaced
        rw [apply, List.set_eq_take_append_cons_drop, if_pos inside]
        exact replaced
      · rw [apply, List.set_eq_of_length_le (Nat.le_of_not_lt inside)]
        exact .unchanged items

end Edit

namespace Alignment

variable {equal : Captured → Captured → Bool}

section Covering

variable (equal) in
/-- From every sequence, the first one is at most one further away than the second one. -/
def Near (left other : List Captured) : Prop :=
  ∀ right, distance equal left right ≤ distance equal other right + 1

theorem near_self (left : List Captured) : Near equal left left :=
  fun _ => Nat.le_succ _

theorem near_cons_self (l : Captured) (left : List Captured) : Near equal (l :: left) left := by
  intro right
  rw [← distance_flip, ← distance_flip equal left right]
  exact distance_cons_right_le _ right left l

theorem near_self_cons (l : Captured) (left : List Captured) : Near equal left (l :: left) :=
  le_distance_cons_left equal l left

theorem near_cons_cons (l l' : Captured) (left : List Captured) :
    Near equal (l :: left) (l' :: left) := by
  intro right
  induction right with
  | nil => exact Nat.le_succ _
  | cons r right induction =>
      rw [distance_cons_cons, distance_cons_cons]
      split <;> split <;> omega

theorem Near.cons {left other : List Captured} (near : Near equal left other) (l : Captured) :
    Near equal (l :: left) (l :: other) := by
  intro right
  induction right with
  | nil => exact Nat.succ_le_succ (near [])
  | cons r right induction =>
      have shorter := near right
      have whole := near (r :: right)
      rw [distance_cons_cons, distance_cons_cons]
      omega

theorem Near.append {left other : List Captured} (near : Near equal left other)
    (front : List Captured) : Near equal (front ++ left) (front ++ other) := by
  induction front with
  | nil => exact near
  | cons l front induction => exact induction.cons l

theorem reverse_append_cons (front back : List Captured) (value : Captured) :
    (front ++ value :: back).reverse = back.reverse ++ value :: front.reverse := by
  rw [List.reverse_append, List.reverse_cons, List.append_assoc, List.singleton_append]

/-- One edit brings a sequence at most one nearer to any other. -/
theorem near_of_outcome {items edited : List Captured} (outcome : Edit.Outcome items edited) :
    Near equal items.reverse edited.reverse := by
  cases outcome with
  | unchanged => exact near_self _
  | inserted front back value =>
      rw [reverse_append_cons, List.reverse_append]
      exact (near_self_cons value front.reverse).append back.reverse
  | removed front back value =>
      rw [reverse_append_cons, List.reverse_append]
      exact (near_cons_self value front.reverse).append back.reverse
  | replaced front back old new =>
      rw [reverse_append_cons, reverse_append_cons]
      exact (near_cons_cons old new front.reverse).append back.reverse

variable (equal) in
/-- A script brings a sequence nearer to another by at most one for each of its edits. -/
theorem distance_le_applyAll (script : List Edit) (left right : List Captured) :
    distance equal left.reverse right ≤
      distance equal (Edit.applyAll left script).reverse right + script.length := by
  induction script generalizing left with
  | nil => exact Nat.le_refl _
  | cons edit script induction =>
      calc distance equal left.reverse right
          ≤ distance equal (edit.apply left).reverse right + 1 :=
            near_of_outcome (edit.outcome_apply left) right
        _ ≤ distance equal (Edit.applyAll (edit.apply left) script).reverse right +
              script.length + 1 := Nat.succ_le_succ (induction (edit.apply left))

end Covering

section Counting

/-- The number of edits that a step stands for. -/
def Step.cost : Step → Nat
  | keep => 0
  | replace _ _ | remove _ | insert _ => 1

/-- The number of edits that some steps stand for. -/
def cost (steps : List Step) : Nat := (steps.map Step.cost).sum

theorem cost_cons (step : Step) (steps : List Step) :
    cost (step :: steps) = step.cost + cost steps := by
  rw [cost, List.map_cons, List.sum_cons, cost]

theorem cost_reverse (steps : List Step) : cost steps.reverse = cost steps := by
  rw [cost, List.map_reverse, List.sum_reverse, cost]

theorem length_scriptOf (index : Nat) (steps : List Step) :
    (scriptOf index steps).length = cost steps := by
  induction steps generalizing index with
  | nil => rfl
  | cons step steps induction =>
      rw [cost_cons]
      cases step with
      | keep => rw [scriptOf, induction, Step.cost, Nat.zero_add]
      | replace | remove | insert =>
          rw [scriptOf, List.length_cons, induction, Step.cost, Nat.add_comm]

/-- The steps of the trace cost as much as the distance says. -/
theorem cost_path (left right : List Captured) :
    cost (path equal left right) = distance equal left right := by
  induction left generalizing right with
  | nil =>
      induction right with
      | nil => rfl
      | cons r right induction =>
          rw [path_nil, distance_nil] at induction ⊢
          rw [List.map_cons, cost_cons, induction, Step.cost, List.length_cons, Nat.add_comm]
  | cons l left induction_left =>
      induction right with
      | nil =>
          rw [path_cons_nil, cost_cons, induction_left, distance_cons_nil, Step.cost, Nat.add_comm]
      | cons r right induction_right =>
          by_cases matching : equal l r
          · rw [path_of_equal matching, distance_of_equal equal matching, cost_cons,
              induction_left, Step.cost, Nat.zero_add]
          · have options := distance_of_not_equal equal matching left right
            rw [path_of_not_equal matching]
            split
            next replaced =>
              rw [cost_cons, induction_left, replaced, Step.cost, Nat.add_comm]
            next unreplaced =>
              split
              next removed =>
                rw [cost_cons, induction_left, removed.1, Step.cost, Nat.add_comm]
              next unremoved =>
                -- What is left over is an insertion, which is as short.
                have inserted : distance equal (l :: left) (r :: right) =
                    distance equal (l :: left) right + 1 := by
                  by_contra longer
                  have removable := (options.resolve_left unreplaced).resolve_right longer
                  exact unremoved ⟨removable, fun same => absurd same longer⟩
                rw [cost_cons, induction_right, inserted, Step.cost, Nat.add_comm]

/-- The shortest script has as many edits as the distance between the sequences. -/
theorem length_script_shortest (left right : List Captured) :
    (shortest.script equal left right).length = distance equal left.reverse right.reverse := by
  rw [script_eq, length_scriptOf, steps, cost_reverse, cost_path]

/-- Sequences that match position by position have no distance. -/
theorem distance_of_matching {left right : List Captured}
    (matching : List.Forall₂ (fun l r => equal l r) left right) :
    distance equal left.reverse right.reverse = 0 := by
  rw [← length_script_shortest, script_of_matching shortest matching, List.length_nil]

/-- A script to a sequence that matches the right one has at least as many edits as the shortest
script. -/
theorem length_script_le {script : List Edit} {left right : List Captured}
    (matching : List.Forall₂ (fun l r => equal l r) (Edit.applyAll left script) right) :
    (shortest.script equal left right).length ≤ script.length := by
  have covered := distance_le_applyAll equal script left right.reverse
  rw [distance_of_matching matching, Nat.zero_add] at covered
  rw [length_script_shortest]
  exact covered

end Counting

/-- Of all scripts that make the right sequence of the left one, whatever their positions, the
shortest script has the fewest edits, and the positional script is one of them. -/
theorem isLeast_length_shortest (left right : List Captured) :
    IsLeast
        {count | ∃ script, Edit.applyAll left script == right ∧ List.length script = count}
        (shortest.script (· == ·) left right).length ∧
      (shortest.script (· == ·) left right).length ≤
        (positional.script (· == ·) left right).length := by
  have native (alignment : Alignment) : List.Forall₂ (fun l r => l == r)
      (Edit.applyAll left (alignment.script (· == ·) left right)) right :=
    matching_applyAll (fun _ => BEq.rfl) alignment left right
  refine ⟨⟨?_, ?_⟩, length_script_le (native positional)⟩
  · exact ⟨_, beq_iff_forall₂.mpr (native shortest), rfl⟩
  · rintro count ⟨script, made, rfl⟩
    exact length_script_le (beq_iff_forall₂.mp made)

end Alignment
end AuditTrail
