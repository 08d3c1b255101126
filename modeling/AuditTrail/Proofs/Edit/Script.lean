import AuditTrail.Proofs.Edit.Distance
import AuditTrail.Proofs.Schema.Comparators

/-!
# Scripts of alignments

Both ways to find a script go through an alignment, a list of steps that consumes the two sequences
from left to right.  Carrying out the script of an alignment gives the new sequence, apart from the
elements that are matched and stay as they were.  Swapping the steps of an alignment inverts its
script, and an alignment of sequences that match position by position has an empty script.
-/

namespace AuditTrail

namespace Edit

/-- No position falls short when a script is inverted behind `added` insertions and `removed`
removals. -/
def InvertsFrom (added removed : Nat) : List Edit → Prop
  | [] => True
  | edit :: rest =>
    added ≤ edit.index + removed ∧
      match edit with
      | insert _ _ => InvertsFrom (added + 1) removed rest
      | remove _ _ => InvertsFrom added (removed + 1) rest
      | replace _ _ _ => InvertsFrom added removed rest

/-- No position falls short when a script is inverted. -/
def Inverts (script : List Edit) : Prop := InvertsFrom 0 0 script

theorem same_self (edit : Edit) : edit == edit := by
  cases edit with
  | insert | remove | replace =>
      change same _ _ = true
      simp [same]

instance : ReflBEq Edit := ⟨same_self _⟩

end Edit

namespace Alignment

variable {equal : Captured → Captured → Bool}

/-- The positional alignment. -/
def positionalSteps (equal : Captured → Captured → Bool) :
    List Captured → List Captured → List Step
  | l :: left, r :: right =>
    (if equal l r then .keep else .replace l r) :: positionalSteps equal left right
  | [], right => right.map .insert
  | left, [] => left.map .remove

/-- The alignment behind a script. -/
def steps (equal : Captured → Captured → Bool) (alignment : Alignment)
    (left right : List Captured) : List Step :=
  match alignment with
  | positional => positionalSteps equal left right
  | shortest => (path equal left.reverse right.reverse).reverse

section Reading

theorem scriptOf_insert (index : Nat) (right : List Captured) :
    scriptOf index (right.map .insert) = right.mapIdx fun i value => .insert (index + i) value := by
  induction right generalizing index with
  | nil => rfl
  | cons r right induction =>
      simp only [List.map_cons, scriptOf, induction, List.mapIdx_cons, Nat.add_zero,
        Nat.add_right_comm index, ← Nat.add_assoc]

theorem scriptOf_remove (index : Nat) (left : List Captured) :
    scriptOf index (left.map .remove) = left.map fun value => .remove index value := by
  induction left with
  | nil => rfl
  | cons l left induction => simp only [List.map_cons, scriptOf, induction]

theorem positionalFrom_eq (index : Nat) (left right : List Captured) :
    positionalFrom equal index left right = scriptOf index (positionalSteps equal left right) := by
  induction left generalizing index right with
  | nil =>
      cases right with
      | nil => rfl
      | cons r right => exact (scriptOf_insert index (r :: right)).symm
  | cons l left induction =>
      cases right with
      | nil => exact (scriptOf_remove index (l :: left)).symm
      | cons r right =>
          rw [positionalFrom, positionalSteps]
          split <;> simp only [scriptOf, induction]

/-- Every script is read off an alignment. -/
theorem script_eq (alignment : Alignment) (left right : List Captured) :
    alignment.script equal left right = scriptOf 0 (alignment.steps equal left right) := by
  cases alignment with
  | positional => exact positionalFrom_eq 0 left right
  | shortest =>
      rw [script, shortestScript, trace_eq_path (tabulates_distances left right)]
      rfl

end Reading

section Aligning

variable (equal) in
/-- The steps consume both sequences, and keep only elements that match. -/
inductive Aligns : List Step → List Captured → List Captured → Prop
  | nil : Aligns [] [] []
  | keep {l r steps left right} (matching : equal l r) (rest : Aligns steps left right) :
      Aligns (.keep :: steps) (l :: left) (r :: right)
  | replace {l r steps left right} (rest : Aligns steps left right) :
      Aligns (.replace l r :: steps) (l :: left) (r :: right)
  | remove {l steps left right} (rest : Aligns steps left right) :
      Aligns (.remove l :: steps) (l :: left) right
  | insert {r steps left right} (rest : Aligns steps left right) :
      Aligns (.insert r :: steps) left (r :: right)

theorem aligns_insert (right : List Captured) : Aligns equal (right.map .insert) [] right := by
  induction right with
  | nil => exact .nil
  | cons r right induction => exact .insert induction

theorem aligns_remove (left : List Captured) : Aligns equal (left.map .remove) left [] := by
  induction left with
  | nil => exact .nil
  | cons l left induction => exact .remove induction

theorem Aligns.append {first second : List Step} {left left' right right' : List Captured}
    (front : Aligns equal first left right) (back : Aligns equal second left' right') :
    Aligns equal (first ++ second) (left ++ left') (right ++ right') := by
  induction front with
  | nil => exact back
  | keep matching _ induction => exact .keep matching induction
  | replace _ induction => exact .replace induction
  | remove _ induction => exact .remove induction
  | insert _ induction => exact .insert induction

theorem Aligns.reverse {steps : List Step} {left right : List Captured}
    (aligns : Aligns equal steps left right) :
    Aligns equal steps.reverse left.reverse right.reverse := by
  induction aligns with
  | nil => exact .nil
  | keep matching _ induction =>
      simp only [List.reverse_cons]
      exact induction.append (.keep matching .nil)
  | replace _ induction =>
      simp only [List.reverse_cons]
      exact induction.append (.replace .nil)
  | @remove l steps left right _ induction =>
      have appended := induction.append (.remove .nil : Aligns equal [.remove l] [l] [])
      simpa only [List.reverse_cons, List.append_nil] using appended
  | @insert r steps left right _ induction =>
      have appended := induction.append (.insert .nil : Aligns equal [.insert r] [] [r])
      simpa only [List.reverse_cons, List.append_nil] using appended

theorem aligns_positionalSteps (left right : List Captured) :
    Aligns equal (positionalSteps equal left right) left right := by
  induction left generalizing right with
  | nil =>
      cases right with
      | nil => exact .nil
      | cons r right => exact aligns_insert (r :: right)
  | cons l left induction =>
      cases right with
      | nil => exact aligns_remove (l :: left)
      | cons r right =>
          rw [positionalSteps]
          split
          next matching => exact .keep matching (induction right)
          next => exact .replace (induction right)

theorem aligns_path (left right : List Captured) :
    Aligns equal (path equal left right) left right := by
  induction left generalizing right with
  | nil => exact aligns_insert right
  | cons l left induction_left =>
      induction right with
      | nil => exact .remove (induction_left [])
      | cons r right induction_right =>
          rw [path, pathRow]
          split
          next kept =>
            rw [Bool.and_eq_true] at kept
            exact .keep kept.2 (induction_left right)
          next =>
            split
            · exact .replace (induction_left right)
            · dsimp only
              split
              · exact .remove (induction_left (r :: right))
              · exact .insert induction_right

/-- The steps behind a script align the two sequences. -/
theorem aligns_steps (alignment : Alignment) (left right : List Captured) :
    Aligns equal (alignment.steps equal left right) left right := by
  cases alignment with
  | positional => exact aligns_positionalSteps left right
  | shortest =>
      have reversed : Aligns equal _ _ _ := (aligns_path left.reverse right.reverse).reverse
      rwa [List.reverse_reverse, List.reverse_reverse] at reversed

end Aligning

section Carrying

theorem insertIdx_append_length (done left : List Captured) (value : Captured) :
    (done ++ left).insertIdx done.length value = done ++ value :: left := by
  induction done with
  | nil => rfl
  | cons head done induction =>
      rw [List.cons_append, List.length_cons, List.insertIdx_succ_cons, induction,
        List.cons_append]

theorem apply_insert_append (done left : List Captured) (r : Captured) :
    Edit.apply (done ++ left) (.insert done.length r) = done ++ [r] ++ left := by
  simp [Edit.apply, insertIdx_append_length]

theorem apply_remove_append (done left : List Captured) (l : Captured) :
    Edit.apply (done ++ l :: left) (.remove done.length l) = done ++ left := by
  simp [Edit.apply, List.eraseIdx_append_of_length_le]

theorem apply_replace_append (done left : List Captured) (l r : Captured) :
    Edit.apply (done ++ l :: left) (.replace done.length l r) = done ++ [r] ++ left := by
  simp [Edit.apply]

/-- The sequence that an alignment makes of the left one. -/
def rebuild : List Step → List Captured → List Captured
  | .keep :: steps, l :: left => l :: rebuild steps left
  | .replace _ new :: steps, _ :: left => new :: rebuild steps left
  | .remove _ :: steps, _ :: left => rebuild steps left
  | .insert new :: steps, left => new :: rebuild steps left
  | _, _ => []

/-- Carrying out the script of an alignment behind a finished part rebuilds what follows it. -/
theorem Aligns.applyAll_scriptOf {steps : List Step} {left right : List Captured}
    (aligns : Aligns equal steps left right) (done : List Captured) :
    Edit.applyAll (done ++ left) (scriptOf done.length steps) = done ++ rebuild steps left := by
  induction aligns generalizing done with
  | nil => rfl
  | @keep l r steps left right _ _ induction =>
      have rest := induction (done ++ [l])
      rw [List.append_assoc, List.append_assoc, List.length_append] at rest
      exact rest
  | @replace l r steps left right _ induction =>
      have rest := induction (done ++ [r])
      rw [List.append_assoc _ _ (rebuild _ _), List.length_append] at rest
      rw [scriptOf, Edit.applyAll, List.foldl_cons, apply_replace_append]
      exact rest
  | @remove l steps left right _ induction =>
      rw [scriptOf, Edit.applyAll, List.foldl_cons, apply_remove_append]
      exact induction done
  | @insert r steps left right _ induction =>
      have rest := induction (done ++ [r])
      rw [List.append_assoc _ _ (rebuild _ _), List.length_append] at rest
      rw [scriptOf, Edit.applyAll, List.foldl_cons, apply_insert_append]
      exact rest

/-- Carrying out a script that was found rebuilds the sequence that its alignment makes. -/
theorem applyAll_script (alignment : Alignment) (left right : List Captured) :
    Edit.applyAll left (alignment.script equal left right) =
      rebuild (alignment.steps equal left right) left := by
  have aligns : Aligns equal _ _ _ := aligns_steps alignment left right
  have carried := aligns.applyAll_scriptOf []
  rw [List.nil_append, List.nil_append, List.length_nil] at carried
  rw [script_eq, carried]

variable (equal) in
/-- An element stands for one of the right sequence: it is that element, or an element of the left
sequence that matches it. -/
def StandsFor (left : List Captured) (item r : Captured) : Prop :=
  item = r ∨ item ∈ left ∧ equal item r

theorem StandsFor.mono {left left' : List Captured} (subset : left ⊆ left') {item r : Captured}
    (stands : StandsFor equal left item r) : StandsFor equal left' item r :=
  stands.imp id fun ⟨member, matching⟩ => ⟨subset member, matching⟩

/-- What an alignment makes of the left sequence stands for the right one element by element. -/
theorem Aligns.standsFor_rebuild {steps : List Step} {left right : List Captured}
    (aligns : Aligns equal steps left right) :
    List.Forall₂ (StandsFor equal left) (rebuild steps left) right := by
  induction aligns with
  | nil => exact .nil
  | @keep l r steps left right matching _ induction =>
      rw [rebuild]
      exact .cons (.inr ⟨List.mem_cons_self, matching⟩)
        (induction.imp fun _ _ => .mono (List.subset_cons_self l left))
  | @replace l r steps left right _ induction =>
      rw [rebuild]
      exact .cons (.inl rfl) (induction.imp fun _ _ => .mono (List.subset_cons_self l left))
  | @remove l steps left right _ induction =>
      rw [rebuild]
      exact induction.imp fun _ _ => .mono (List.subset_cons_self l left)
  | insert _ induction =>
      rw [rebuild]
      exact .cons (.inl rfl) induction

/-- A script makes a sequence that stands for the right one element by element. -/
theorem standsFor_applyAll (alignment : Alignment) (left right : List Captured) :
    List.Forall₂ (StandsFor equal left)
      (Edit.applyAll left (alignment.script equal left right)) right := by
  rw [applyAll_script]
  exact (aligns_steps alignment left right).standsFor_rebuild

/-- Where every element matches itself, a script makes a sequence that matches the right one
position by position. -/
theorem matching_applyAll (refl : ∀ value, equal value value) (alignment : Alignment)
    (left right : List Captured) :
    List.Forall₂ (fun l r => equal l r)
      (Edit.applyAll left (alignment.script equal left right)) right := by
  refine (standsFor_applyAll alignment left right).imp fun item r stands => ?_
  rcases stands with rfl | ⟨-, matching⟩
  · exact refl item
  · exact matching

end Carrying

section Matching

theorem path_of_equal {l r : Captured} (matching : equal l r) (left right : List Captured) :
    path equal (l :: left) (r :: right) = .keep :: path equal left right := by
  have kept : (distance equal (l :: left) (r :: right) == distance equal left right) = true :=
    beq_iff_eq.mpr (distance_of_equal equal matching left right)
  rw [path, pathRow, kept, matching, Bool.and_self, if_pos rfl]

theorem path_of_not_equal {l r : Captured} (different : ¬ equal l r) (left right : List Captured) :
    path equal (l :: left) (r :: right) =
      if distance equal (l :: left) (r :: right) = distance equal left right + 1 then
        .replace l r :: path equal left right
      else if distance equal (l :: left) (r :: right) = distance equal left (r :: right) + 1 ∧
          (distance equal (l :: left) (r :: right) = distance equal (l :: left) right + 1 →
            compare l r = .lt) then
        .remove l :: path equal left (r :: right)
      else .insert r :: path equal (l :: left) right := by
  rw [path, pathRow]
  simp only [different, Bool.and_false, Bool.false_eq_true, if_false, beq_iff_eq,
    Bool.and_eq_true, Bool.or_eq_true, Bool.not_eq_true', beq_eq_false_iff_ne, ne_eq,
    ← imp_iff_not_or]
  rfl

theorem scriptOf_keep (index count : Nat) :
    scriptOf index (List.replicate count .keep) = [] := by
  induction count generalizing index with
  | zero => rfl
  | succ count induction => exact induction (index + 1)

theorem positionalSteps_of_matching {left right : List Captured}
    (matching : List.Forall₂ (fun l r => equal l r) left right) :
    positionalSteps equal left right = List.replicate right.length .keep := by
  induction matching with
  | nil => rfl
  | cons head _ induction =>
      rw [positionalSteps, if_pos head, induction, List.length_cons, List.replicate_succ]

theorem path_of_matching {left right : List Captured}
    (matching : List.Forall₂ (fun l r => equal l r) left right) :
    path equal left right = List.replicate right.length .keep := by
  induction matching with
  | nil => rfl
  | cons head _ induction =>
      rw [path_of_equal head, induction, List.length_cons, List.replicate_succ]

/-- Sequences that match position by position need no edits. -/
theorem script_of_matching (alignment : Alignment) {left right : List Captured}
    (matching : List.Forall₂ (fun l r => equal l r) left right) :
    alignment.script equal left right = [] := by
  rw [script_eq]
  cases alignment with
  | positional => rw [steps, positionalSteps_of_matching matching, scriptOf_keep]
  | shortest =>
      have reversed : List.Forall₂ (fun l r => equal l r) left.reverse right.reverse :=
        List.rel_reverse matching
      rw [steps, path_of_matching reversed, List.reverse_replicate, scriptOf_keep]

theorem Aligns.matching {steps : List Step} {left right : List Captured}
    (aligns : Aligns equal steps left right) {index : Nat} (none : scriptOf index steps = []) :
    List.Forall₂ (fun l r => equal l r) left right := by
  induction aligns generalizing index with
  | nil => exact .nil
  | keep matching _ induction => exact .cons matching (induction none)
  | replace | remove | insert => cases none

/-- Sequences that need no edits match position by position. -/
theorem matching_of_script_eq_nil (alignment : Alignment) {left right : List Captured}
    (none : alignment.script equal left right = []) :
    List.Forall₂ (fun l r => equal l r) left right := by
  rw [script_eq] at none
  exact (aligns_steps alignment left right).matching none

end Matching

section Swapping

/-- The step of the opposite alignment. -/
def Step.swap : Step → Step
  | keep => keep
  | replace old new => replace new old
  | remove old => insert old
  | insert new => remove new

/-- The script of the swapped steps is the inverted script. -/
theorem invertFrom_scriptOf (steps : List Step) {added removed index : Nat}
    (reached : added ≤ index + removed) :
    Edit.invertFrom added removed (scriptOf index steps) =
      scriptOf (index + removed - added) (steps.map Step.swap) := by
  have shift (other : Nat) : other + 1 + removed - added = other + removed + 1 - added := by
    omega
  induction steps generalizing added removed index with
  | nil => rfl
  | cons step steps induction =>
      have advanced : index + 1 + removed - added = index + removed - added + 1 := by omega
      cases step with
      | keep =>
          rw [scriptOf, induction (by omega) (by omega), List.map_cons, Step.swap, scriptOf,
            advanced]
      | replace old new =>
          rw [scriptOf, Edit.invertFrom, induction (by omega) (by omega), List.map_cons, Step.swap,
            scriptOf, advanced]
          rfl
      | remove old =>
          rw [scriptOf, Edit.invertFrom, induction (by omega) (by omega), List.map_cons, Step.swap,
            scriptOf, ← Nat.add_assoc, Nat.add_right_comm index removed 1, advanced]
          rfl
      | insert new =>
          rw [scriptOf, Edit.invertFrom, induction (by omega) (by omega), List.map_cons, Step.swap,
            scriptOf, Nat.add_right_comm index 1 removed, Nat.add_sub_add_right]
          rfl

theorem invertsFrom_scriptOf (steps : List Step) {added removed index : Nat}
    (reached : added ≤ index + removed) :
    Edit.InvertsFrom added removed (scriptOf index steps) := by
  induction steps generalizing added removed index with
  | nil => trivial
  | cons step steps induction =>
      cases step with
      | keep => exact induction (by omega)
      | replace old new => exact ⟨reached, induction (by omega)⟩
      | remove old => exact ⟨reached, induction (by omega)⟩
      | insert new => exact ⟨reached, induction (by omega)⟩

/-- No position falls short when a script that was found is inverted. -/
theorem inverts_script (alignment : Alignment) (left right : List Captured) :
    Edit.Inverts (alignment.script equal left right) := by
  rw [script_eq]
  exact invertsFrom_scriptOf _ (Nat.zero_le _)

theorem positionalSteps_swap (symm : ∀ a b, equal a b = equal b a) (left right : List Captured) :
    positionalSteps equal right left = (positionalSteps equal left right).map Step.swap := by
  induction left generalizing right with
  | nil => cases right <;> simp [positionalSteps, Step.swap]
  | cons l left induction =>
      cases right with
      | nil => simp [positionalSteps, Step.swap]
      | cons r right =>
          rw [positionalSteps, positionalSteps, List.map_cons, induction, symm]
          split <;> rfl

theorem distance_comm (symm : ∀ a b, equal a b = equal b a) (left right : List Captured) :
    distance equal right left = distance equal left right := by
  have flipped := distance_flip equal left right
  rwa [show (fun a b => equal b a) = equal from funext₂ fun a b => symm b a] at flipped

/-- The trace of the swapped sequences swaps every step.  Where a removal and an insertion are
equally short, the order of the elements decides on either side. -/
theorem path_swap (mirrors : Schema.MirrorsEqual equal) (left right : List Captured) :
    path equal right left = (path equal left right).map Step.swap := by
  induction left generalizing right with
  | nil =>
      induction right with
      | nil => rfl
      | cons r right induction =>
          rw [path_cons_nil, induction]
          rfl
  | cons l left induction_left =>
      induction right with
      | nil =>
          rw [path_cons_nil, List.map_cons, ← induction_left]
          rfl
      | cons r right induction_right =>
          by_cases matching : equal l r
          · have mirrored : equal r l := by rwa [mirrors.symm]
            rw [path_of_equal matching, path_of_equal mirrored, List.map_cons, Step.swap,
              induction_left]
          · have mirrored : ¬ equal r l := by rwa [mirrors.symm]
            have ordered : compare l r ≠ .eq := fun neither =>
              matching (mirrors.passes l r (Value.compare_eq_iff_beq.mp neither))
            have options := distance_of_not_equal equal matching left right
            rw [path_of_not_equal matching, path_of_not_equal mirrored, induction_left right,
              induction_left (r :: right), induction_right]
            rw [distance_comm mirrors.symm (l :: left) (r :: right),
              distance_comm mirrors.symm left right, distance_comm mirrors.symm left (r :: right),
              distance_comm mirrors.symm (l :: left) right]
            have swapped : compare r l = (compare l r).swap := Std.OrientedCmp.eq_swap
            by_cases replaced :
                distance equal (l :: left) (r :: right) = distance equal left right + 1
            · rw [if_pos replaced, if_pos replaced]
              rfl
            · rw [if_neg replaced, if_neg replaced, swapped]
              by_cases removable :
                  distance equal (l :: left) (r :: right) = distance equal left (r :: right) + 1
              · by_cases insertable :
                    distance equal (l :: left) (r :: right) = distance equal (l :: left) right + 1
                · -- Both are as short, so the order of the elements decides.
                  cases order : compare l r with
                  | eq => exact absurd order ordered
                  | lt | gt => simp [← removable, ← insertable, Step.swap]
                · rw [if_neg fun removal => insertable removal.1, if_pos]
                  · rfl
                  · exact ⟨removable, fun insertion => absurd insertion insertable⟩
              · have insertable := (options.resolve_left replaced).resolve_left removable
                rw [if_pos, if_neg fun removal => removable removal.1]
                · rfl
                · exact ⟨insertable, fun removal => absurd removal removable⟩

/-- Swapping the sequences swaps every step of their alignment. -/
theorem steps_swap (mirrors : Schema.MirrorsEqual equal) (alignment : Alignment)
    (left right : List Captured) :
    alignment.steps equal right left = (alignment.steps equal left right).map Step.swap := by
  cases alignment with
  | positional => exact positionalSteps_swap mirrors.symm left right
  | shortest => rw [steps, steps, path_swap mirrors, List.map_reverse]

/-- The inverted script is that of the swapped steps. -/
theorem invert_script_eq (alignment : Alignment) (left right : List Captured) :
    Edit.invert (alignment.script equal left right) =
      scriptOf 0 ((alignment.steps equal left right).map Step.swap) := by
  rw [script_eq, Edit.invert, invertFrom_scriptOf _ (Nat.zero_le _)]

/-- Inverting the script from one sequence to another gives the script back. -/
theorem invert_script (mirrors : Schema.MirrorsEqual equal) (alignment : Alignment)
    (left right : List Captured) :
    Edit.invert (alignment.script equal left right) = alignment.script equal right left := by
  rw [invert_script_eq, script_eq, steps_swap mirrors alignment left right]

end Swapping

end Alignment
end AuditTrail
