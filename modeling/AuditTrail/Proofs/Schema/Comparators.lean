import AuditTrail.Proofs.Value.Equality
import AuditTrail.Schema.TypeTable

/-!
# Comparators

Registered value and custom classes bring comparators of their own.  What all of them have in
common carries over to the equality of every classified type, since whatever is not compared by a
comparator is compared natively.
-/

namespace AuditTrail.Schema

variable {α : Type} [BEq α]

/-- Natively equal arguments count as equal. -/
def PassesEqual (test : α → α → Bool) : Prop := ∀ a b, a == b → test a b

/-- Natively equal arguments count as equal and can stand for each other. -/
structure RespectsEqual (test : α → α → Bool) : Prop where
  /-- Natively equal arguments count as equal. -/
  passes : PassesEqual test
  /-- Natively equal arguments can stand for each other. -/
  congr : ∀ a a' b b', a == a' → b == b' → test a b = test a' b'

/-- Natively equal arguments count as equal, and the sides do not matter. -/
structure MirrorsEqual (test : α → α → Bool) : Prop where
  /-- Natively equal arguments count as equal. -/
  passes : PassesEqual test
  /-- The sides do not matter. -/
  symm : ∀ a b, test a b = test b a

theorem respectsEqual_beq [EquivBEq α] : RespectsEqual (· == · : α → α → Bool) where
  passes _ _ equal := equal
  congr a a' b b' left right := by
    rw [Bool.eq_iff_iff]
    exact ⟨fun equal => BEq.trans (BEq.symm left) (BEq.trans equal right),
      fun equal => BEq.trans left (BEq.trans equal (BEq.symm right))⟩

namespace Classified

/-- The comparators within a type have a property, given for those of scalars and of values. -/
def ComparatorsAre (onScalars : (Scalar → Scalar → Bool) → Prop)
    (onValues : (Captured → Captured → Bool) → Prop) : Classified → Prop
  | value _ (some rule) => onScalars rule.equal
  | custom rule => onValues rule
  | collection _ item | mapping _ item => item.ComparatorsAre onScalars onValues
  | value _ none | reference _ | ignored | unknown _ => True

theorem ComparatorsAre.imp {onScalars onScalars' : (Scalar → Scalar → Bool) → Prop}
    {onValues onValues' : (Captured → Captured → Bool) → Prop}
    (scalars : ∀ test, onScalars test → onScalars' test)
    (values : ∀ test, onValues test → onValues' test) {type : Classified}
    (are : type.ComparatorsAre onScalars onValues) : type.ComparatorsAre onScalars' onValues' := by
  induction type with
  | value _ rule =>
      cases rule with
      | none => trivial
      | some rule => exact scalars _ are
  | custom rule => exact values _ are
  | collection _ _ induction => exact induction are
  | mapping _ _ _ induction => exact induction are
  | reference | ignored | unknown => trivial

theorem equal_of_beq {type : Classified} (are : type.ComparatorsAre PassesEqual PassesEqual)
    {left right : Captured} (equal : left == right) : type.equal left right := by
  cases type with
  | value _ rule =>
      cases left <;> cases right <;> try exact equal
      cases rule with
      | none => exact equal
      | some rule => exact are _ _ equal
  | custom rule => exact are _ _ equal
  | _ => exact equal

theorem equal_self {type : Classified} (are : type.ComparatorsAre PassesEqual PassesEqual)
    (value : Captured) : type.equal value value :=
  equal_of_beq are BEq.rfl

theorem equal_congr {type : Classified} (are : type.ComparatorsAre RespectsEqual RespectsEqual)
    {left left' right right' : Captured} (lefts : left == left') (rights : right == right') :
    type.equal left right = type.equal left' right' := by
  cases type with
  | value _ rule =>
      cases left <;> cases left' <;> try exact absurd lefts Bool.false_ne_true
      case scalar.scalar a a' =>
        cases right <;> cases right' <;> try exact absurd rights Bool.false_ne_true
        case scalar.scalar b b' =>
          cases rule with
          | none => exact respectsEqual_beq.congr a a' b b' lefts rights
          | some rule => exact are.congr a a' b b' lefts rights
        all_goals exact respectsEqual_beq.congr _ _ _ _ lefts rights
      all_goals exact respectsEqual_beq.congr _ _ _ _ lefts rights
  | custom rule => exact are.congr _ _ _ _ lefts rights
  | _ => exact respectsEqual_beq.congr _ _ _ _ lefts rights

theorem equal_comm {type : Classified} (are : type.ComparatorsAre MirrorsEqual MirrorsEqual)
    (left right : Captured) : type.equal left right = type.equal right left := by
  cases type with
  | value _ rule =>
      cases left <;> cases right <;> try exact BEq.comm
      cases rule with
      | none => exact BEq.comm
      | some rule => exact are.symm _ _
  | custom rule => exact are.symm _ _
  | _ => exact BEq.comm

theorem mirrorsEqual_equal {type : Classified}
    (are : type.ComparatorsAre MirrorsEqual MirrorsEqual) : MirrorsEqual type.equal where
  passes _ _ equal := equal_of_beq
    (are.imp (fun _ => MirrorsEqual.passes) fun _ => MirrorsEqual.passes) equal
  symm := equal_comm are

end Classified

namespace TypeTable

/-- The registered comparators have a property, given for those of scalars and of values. -/
structure ComparatorsAre (onScalars : (Scalar → Scalar → Bool) → Prop)
    (onValues : (Captured → Captured → Bool) → Prop) (types : TypeTable) : Prop where
  /-- The comparators of value classes have it. -/
  values : ∀ entry ∈ types.values, ∀ rule, entry.2 = some rule → onScalars rule.equal
  /-- The comparators of custom classes have it. -/
  customs : ∀ entry ∈ types.customs, onValues entry.2

variable {onScalars : (Scalar → Scalar → Bool) → Prop}
  {onValues : (Captured → Captured → Bool) → Prop} {types : TypeTable}

/-- Where nothing brings a comparator, all comparators have every property. -/
theorem comparatorsAre_of_native (values : types.values = []) (customs : types.customs = []) :
    types.ComparatorsAre onScalars onValues := by
  refine ⟨fun _ member => ?_, fun _ member => ?_⟩
  · rw [values] at member
    cases member
  · rw [customs] at member
    cases member

theorem classifyName_comparatorsAre (are : types.ComparatorsAre onScalars onValues)
    (name : String) : (types.classifyName name).ComparatorsAre onScalars onValues := by
  unfold classifyName
  split
  · trivial
  · split
    next rule found =>
      cases rule with
      | none => trivial
      | some rule =>
          obtain ⟨entry, entry_found, rule_eq⟩ := Option.map_eq_some_iff.mp found
          exact are.values entry (List.mem_of_find?_eq_some entry_found) rule rule_eq
    next => trivial
    next rule _ _ found =>
      obtain ⟨entry, entry_found, rfl⟩ := Option.map_eq_some_iff.mp found
      exact are.customs entry (List.mem_of_find?_eq_some entry_found)
    next => split <;> trivial

/-- What holds of all registered comparators holds within every classified type. -/
theorem classify_comparatorsAre (are : types.ComparatorsAre onScalars onValues)
    (type : TypeExpr) : (types.classify type).ComparatorsAre onScalars onValues := by
  induction type with
  | named name => exact classifyName_comparatorsAre are name
  | list item induction | set item induction | array item induction => exact induction
  | map key value _ induction => exact induction

end TypeTable
end AuditTrail.Schema
