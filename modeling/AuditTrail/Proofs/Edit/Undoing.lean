import AuditTrail.Proofs.Edit.Script

/-!
# Undoing scripts

Inverting a script that was found swaps the steps of its alignment.  Hence the inverted script leads
back to the very sequence that the script started from, and inverting twice gives the script again,
whatever the comparison of elements.  Where the comparison has no preferred side, the inverted
script is the one that is found between the swapped sequences.
-/

namespace AuditTrail

/-- Inverting a script undoes what it makes of a sequence, and no position falls short on the way
there and back. -/
structure Edit.Undoable (items : List Captured) (script : List Edit) : Prop where
  /-- The positions of the inverted script do not fall short. -/
  inverts : Inverts script
  /-- The inverted script leads back. -/
  leads_back : applyAll (applyAll items script) (invert script) = items
  /-- The positions of the script that is inverted twice do not fall short. -/
  reinverts : Inverts (invert script)
  /-- Inverting twice changes nothing. -/
  invert_invert : invert (invert script) = script

namespace Alignment

variable {equal : Captured → Captured → Bool}

@[simp]
theorem Step.swap_swap (step : Step) : step.swap.swap = step := by
  cases step <;> rfl

/-- The swapped steps consume what the steps make, whether or not it matches. -/
theorem Aligns.swap_rebuild {steps : List Step} {left right : List Captured}
    (aligns : Aligns equal steps left right) :
    Aligns (fun _ _ => true) (steps.map Step.swap) (rebuild steps left) left := by
  induction aligns with
  | nil => exact .nil
  | keep _ _ induction => exact .keep rfl induction
  | replace _ induction => exact .replace induction
  | remove _ induction => exact .insert induction
  | insert _ induction => exact .remove induction

/-- The swapped steps make the left sequence again. -/
theorem Aligns.rebuild_swap {steps : List Step} {left right : List Captured}
    (aligns : Aligns equal steps left right) :
    rebuild (steps.map Step.swap) (rebuild steps left) = left := by
  induction aligns with
  | nil => rfl
  | @keep l _ _ _ _ _ _ induction => exact congrArg (l :: ·) induction
  | @replace l _ _ _ _ _ induction => exact congrArg (l :: ·) induction
  | @remove l _ _ _ _ induction => exact congrArg (l :: ·) induction
  | insert _ induction => exact induction

theorem applyAll_invert_script (alignment : Alignment) (left right : List Captured) :
    Edit.applyAll (Edit.applyAll left (alignment.script equal left right))
      (Edit.invert (alignment.script equal left right)) = left := by
  have aligns : Aligns equal _ _ _ := aligns_steps alignment left right
  have carried := aligns.swap_rebuild.applyAll_scriptOf []
  rw [List.nil_append, List.nil_append, List.length_nil] at carried
  rw [applyAll_script, invert_script_eq, carried, aligns.rebuild_swap]

theorem undoable_script (alignment : Alignment) (left right : List Captured) :
    Edit.Undoable left (alignment.script equal left right) where
  inverts := inverts_script alignment left right
  leads_back := applyAll_invert_script alignment left right
  reinverts := by
    rw [invert_script_eq]
    exact invertsFrom_scriptOf _ (Nat.zero_le _)
  invert_invert := by
    rw [invert_script_eq, Edit.invert, invertFrom_scriptOf _ (Nat.zero_le _), List.map_map,
      script_eq]
    exact congrArg _ (List.map_id'' Step.swap_swap _)

/-- An integer as an element. -/
private def number (value : Int) : Captured := .scalar (.int value)

/-- Integers as elements. -/
private def numbers (values : List Int) : List Captured := values.map number

/-- Every script that is found can be undone, and if the comparison has no preferred side, by the
script that is found the other way round. -/
theorem undoable_script_mirrored (equal : Captured → Captured → Bool) (alignment : Alignment)
    (left right : List Captured) :
    Edit.Undoable left (alignment.script equal left right) ∧
      (Schema.MirrorsEqual equal →
        Edit.invert (alignment.script equal left right) = alignment.script equal right left) :=
  ⟨undoable_script alignment left right, fun mirrors => invert_script mirrors alignment left right⟩

/-- Where a removal and an insertion are equally short, the greater number comes in first on the way
there and goes out first on the way back. -/
theorem undoable_script_mirrored_tie :
    Schema.MirrorsEqual (· == · : Captured → Captured → Bool) ∧
      Edit.Undoable (numbers [1, 2, 1])
        (shortest.script (· == ·) (numbers [1, 2, 1]) (numbers [2, 1, 2])) ∧
      shortest.script (· == ·) (numbers [1, 2, 1]) (numbers [2, 1, 2]) =
        [.insert 0 (number 2), .remove 3 (number 1)] ∧
      Edit.invert (shortest.script (· == ·) (numbers [1, 2, 1]) (numbers [2, 1, 2])) =
        shortest.script (· == ·) (numbers [2, 1, 2]) (numbers [1, 2, 1]) := by
  have mirrors : Schema.MirrorsEqual (· == · : Captured → Captured → Bool) :=
    ⟨fun _ _ equal => equal, fun _ _ => BEq.comm⟩
  obtain ⟨undoable, mirrored⟩ := undoable_script_mirrored (· == ·) shortest (numbers [1, 2, 1])
    (numbers [2, 1, 2])
  exact ⟨mirrors, undoable, rfl, mirrored mirrors⟩

end Alignment
end AuditTrail
