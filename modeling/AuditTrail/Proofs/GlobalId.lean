import AuditTrail.GlobalId
import Mathlib

/-!
# The order of global ids

Ids compare by type name and identity at the root, and below one root by the fragments on the way
down.  The order is linear, and an id comes before all that it owns and before its children.
-/

namespace AuditTrail

/-- What two lists begin with in common does not count. -/
theorem compare_append_left {α : Type} [Ord α] [Std.ReflOrd α] (common left right : List α) :
    compare (common ++ left) (common ++ right) = compare left right := by
  induction common with
  | nil => rfl
  | cons item rest induction =>
      rw [List.cons_append, List.cons_append, List.compare_cons_cons, Std.ReflOrd.compare_self,
        Ordering.eq_then, induction]

/-- A text comes before every text that goes on behind it. -/
theorem compare_text_append (text : String) {suffix : String} (goes_on : suffix ≠ "") :
    compare text (text ++ suffix) = .lt := by
  have longer : text < text ++ suffix := by
    have grown : [] < suffix.toList := by
      cases chars : suffix.toList with
      | nil => exact absurd (String.toList_eq_nil_iff.mp chars) goes_on
      | cons char rest => exact List.nil_lt_cons char rest
    have behind : text.toList ++ [] < text.toList ++ suffix.toList := List.append_left_lt grown
    rwa [List.append_nil, ← String.toList_append] at behind
  exact compareOfLessAndEq_eq_lt.mpr longer

namespace GlobalId

/-- Below one root, ids compare as the fragments on the way down. -/
theorem compare_of_root_eq {left right : GlobalId} (roots : left.root = right.root) :
    compare left right = compare left.path right.path := by
  have keys : left.rootKey = right.rootKey := by rw [rootKey_eq_root, roots, ← rootKey_eq_root]
  change (compare left.rootKey.1 right.rootKey.1).then
    ((compare left.rootKey.2 right.rootKey.2).then (compare left.path right.path)) = _
  rw [keys, Std.ReflOrd.compare_self, Std.ReflOrd.compare_self, Ordering.eq_then,
    Ordering.eq_then]

/-- An id comes before what it owns. -/
theorem compare_owned (owner : GlobalId) (fragment : String) :
    compare owner (owned owner fragment) = .lt := by
  calc compare owner (owned owner fragment)
    _ = compare (owner.path ++ []) (owner.path ++ [fragment]) := by
        rw [List.append_nil]
        exact compare_of_root_eq rfl
    _ = compare [] [fragment] := compare_append_left owner.path [] [fragment]
    _ = .lt := rfl

/-- An id comes before its children.  The fragment of an owned child goes on behind that of its
parent. -/
theorem compare_child (id : GlobalId) (fragment : String) :
    compare id (id.child fragment) = .lt := by
  cases id with
  | entity typeName localId => exact compare_owned _ fragment
  | unbounded typeName => exact compare_owned _ fragment
  | owned owner own =>
      have longer : compare own (own ++ "/" ++ fragment) = .lt := by
        rw [String.append_assoc]
        refine compare_text_append own fun empty => ?_
        simpa using congrArg String.length empty
      calc compare (owned owner own) (owned owner (own ++ "/" ++ fragment))
        _ = compare (owner.path ++ [own]) (owner.path ++ [own ++ "/" ++ fragment]) :=
            compare_of_root_eq rfl
        _ = compare [own] [own ++ "/" ++ fragment] := compare_append_left owner.path _ _
        _ = .lt := by rw [List.compare_cons_cons, longer, Ordering.lt_then]

/-- Ids are in a linear order: swapping two swaps how they compare, they compare equal exactly when
they are the same, of two one is at most the other, and only one unless they are the same, and going
up twice is going up.  Every id comes before its children. -/
theorem compare_linear (a b c : GlobalId) (fragment : String) :
    compare b a = (compare a b).swap ∧ (compare a b = .eq ↔ a = b) ∧
      ((compare a b).isLE ∨ (compare b a).isLE) ∧
      ((compare a b).isLE ∧ (compare b a).isLE ↔ a = b) ∧
      ((compare a b).isLE → (compare b c).isLE → (compare a c).isLE) ∧
      compare a (a.child fragment) = .lt := by
  have swapped : compare b a = (compare a b).swap := Std.OrientedCmp.eq_swap
  have same : compare a b = .eq ↔ a = b := Std.LawfulEqCmp.compare_eq_iff_eq
  refine ⟨swapped, same, ?_, ?_, Std.TransCmp.isLE_trans, a.compare_child fragment⟩
  · rw [swapped]
    cases compare a b <;> decide
  · rw [swapped, ← same]
    cases compare a b <;> decide

/-- What a child owns is not the grandchild, whose fragment is joined to that of the child. -/
theorem compare_linear_nested :
    let person : GlobalId := .entity "Person" (.int 1)
    let nested : GlobalId := .owned (person.child "a") "b"
    let joined : GlobalId := (person.child "a").child "b"
    let sibling : GlobalId := person.child "b"
    nested ≠ joined ∧ (compare nested joined).isLE ∧ (compare joined sibling).isLE ∧
      (compare nested sibling).isLE ∧ compare nested (nested.child "c") = .lt := by
  intro person nested joined sibling
  obtain ⟨-, -, -, -, goes_up, below⟩ := compare_linear nested joined sibling "c"
  exact ⟨by decide, by decide, by decide, goes_up (by decide) (by decide), below⟩

end GlobalId

end AuditTrail
