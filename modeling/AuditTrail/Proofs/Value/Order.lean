import AuditTrail.Proofs.Value.Equality

/-!
# The order of values

The order of values is that of a chain except across words that are not numbers.  Such words are all
equal, but lie below all numbers or above them by their sign, so equal values may lie on different
sides of a third one.

Two values are opposed when at some place that both have one holds such a word of either sign.
Equal values compare alike with every value exactly when they are not opposed, and among values no
two of which are opposed the order is transitive.
-/

namespace AuditTrail

section Chains

/-- How three things compare, the first with the second, the second with the third and the first
with the third, if going up twice means going up. -/
def Chained (lower upper whole : Ordering) : Prop :=
  lower.isLE → upper.isLE → whole = lower.then upper

theorem Chained.isLE {lower upper whole : Ordering} (chained : Chained lower upper whole)
    (lower_le : lower.isLE) (upper_le : upper.isLE) : whole.isLE := by
  rw [chained lower_le upper_le]
  cases lower with
  | lt => rfl
  | eq => exact upper_le
  | gt => cases lower_le

theorem chained_compare {α : Type} [Ord α] [Std.TransOrd α] (a b c : α) :
    Chained (compare a b) (compare b c) (compare a c) := by
  intro lower_le upper_le
  cases lower : compare a b with
  | lt => exact Std.TransCmp.lt_of_lt_of_isLE lower upper_le
  | eq => exact Std.TransCmp.congr_left lower
  | gt => simp [lower] at lower_le

/-- What is compared part by part is chained if the first parts are, and the others where the first
ones are equal. -/
theorem Chained.then {lower upper whole lower' upper' whole' : Ordering}
    (heads : Chained lower upper whole)
    (tails : lower = .eq → upper = .eq → Chained lower' upper' whole') :
    Chained (lower.then lower') (upper.then upper') (whole.then whole') := by
  intro lower_le upper_le
  cases lower with
  | gt => cases lower_le
  | lt =>
      cases upper with
      | gt => cases upper_le
      | lt | eq => rw [heads rfl rfl]; rfl
  | eq =>
      rw [heads rfl (by cases upper <;> trivial), Ordering.eq_then, Ordering.eq_then]
      cases upper with
      | gt => cases upper_le
      | lt => cases lower' <;> trivial
      | eq => exact tails rfl rfl lower_le upper_le

/-- What is compared by rank first is chained across ranks. -/
theorem chained_of_ranks {α : Type} {order : α → α → Ordering} {rank : α → Nat}
    (ranked : ∀ a b, rank a ≠ rank b → order a b = compare (rank a) (rank b)) {a b c : α}
    (across : ¬ (rank a = rank b ∧ rank b = rank c)) :
    Chained (order a b) (order b c) (order a c) := by
  intro lower_le upper_le
  by_cases lower : rank a = rank b
  · have upper : rank b ≠ rank c := fun same => across ⟨lower, same⟩
    rw [ranked b c upper] at upper_le ⊢
    rw [ranked a c (lower ▸ upper), lower]
    have below := Nat.compare_eq_lt.mpr (lt_of_le_of_ne (Nat.isLE_compare.mp upper_le) upper)
    rw [below]
    cases lower_eq : order a b with
    | lt | eq => rfl
    | gt => simp [lower_eq] at lower_le
  · have below := ranked a b lower
    rw [below, Nat.isLE_compare] at lower_le
    rw [below, Nat.compare_eq_lt.mpr (lt_of_le_of_ne lower_le lower), Ordering.lt_then]
    have below_third : rank a < rank c := by
      by_cases upper : rank b = rank c
      · omega
      · rw [ranked b c upper, Nat.isLE_compare] at upper_le
        omega
    rw [ranked a c below_third.ne, Nat.compare_eq_lt.mpr below_third]

end Chains

section Laws

variable {α β : Type} {order : α → α → Ordering} {order' : β → β → Ordering}
  {unopposed : α → α → Prop} {unopposed' : β → β → Prop} {a : α} {b : β}

/-- An order is lawful at `a` up to opposition: it goes up with `a` as the least of three that are
not opposed, and what is equal to `a` compares as `a` does exactly if it is not opposed to it. -/
structure LawfulAt (order : α → α → Ordering) (unopposed : α → α → Prop) (a : α) : Prop where
  /-- It is equal to itself. -/
  self : order a a = .eq
  /-- Going up from it twice means going up. -/
  chained : ∀ {b c}, unopposed a b → unopposed b c → unopposed a c →
    Chained (order a b) (order b c) (order a c)
  /-- What is equal to it and not opposed compares alike. -/
  congr : ∀ {b}, order a b = .eq → unopposed a b → ∀ c, order a c = order b c
  /-- Between it and what is equal but opposed to it there is something else. -/
  parted : ∀ {b}, order a b = .eq → ¬ unopposed a b →
    ∃ c, order b c = (order a c).swap ∧ order a c ≠ .eq

/-- Where nothing is opposed, a lawful order is lawful. -/
theorem lawfulAt_compare [Ord α] [Std.TransOrd α] (a : α) :
    LawfulAt (compare : α → α → Ordering) (fun _ _ => True) a where
  self := Std.ReflCmp.compare_self
  chained _ _ _ := chained_compare _ _ _
  congr equal _ _ := Std.TransCmp.congr_left equal
  parted _ opposed := absurd trivial opposed

/-- An order that ranks things by their kind is lawful if it is so within a kind. -/
theorem LawfulAt.ofKind {rank : α → Nat} {f : β → α} (lawful : LawfulAt order' unopposed' b)
    (ranked : ∀ x y, rank x ≠ rank y → order x y = compare (rank x) (rank y))
    (kind : ∀ x, rank x = rank (f b) → ∃ c, x = f c)
    (order_eq : ∀ c d, order (f c) (f d) = order' c d)
    (unopposed_iff : ∀ c d, unopposed (f c) (f d) ↔ unopposed' c d) :
    LawfulAt order unopposed (f b) where
  self := (order_eq b b).trans lawful.self
  chained {x y} lower upper whole := by
    by_cases same : rank (f b) = rank x ∧ rank x = rank y
    · obtain ⟨c, rfl⟩ := kind x same.1.symm
      obtain ⟨d, rfl⟩ := kind y (same.1.trans same.2).symm
      rw [unopposed_iff] at lower upper whole
      rw [order_eq, order_eq, order_eq]
      exact lawful.chained lower upper whole
    · exact chained_of_ranks ranked same
  congr {x} equal unopposed y := by
    have same : rank (f b) = rank x := by
      by_contra differ
      rw [ranked _ _ differ, Nat.compare_eq_eq] at equal
      exact differ equal
    obtain ⟨c, rfl⟩ := kind x same.symm
    by_cases third : rank y = rank (f b)
    · obtain ⟨d, rfl⟩ := kind y third
      rw [order_eq] at equal ⊢
      rw [order_eq]
      exact lawful.congr equal ((unopposed_iff _ _).mp unopposed) d
    · rw [ranked _ _ (Ne.symm third), ranked _ _ (same ▸ Ne.symm third), same]
  parted {x} equal opposed := by
    have same : rank (f b) = rank x := by
      by_contra differ
      rw [ranked _ _ differ, Nat.compare_eq_eq] at equal
      exact differ equal
    obtain ⟨c, rfl⟩ := kind x same.symm
    rw [order_eq] at equal
    obtain ⟨d, between⟩ := lawful.parted equal fun related =>
      opposed ((unopposed_iff _ _).mpr related)
    refine ⟨f d, ?_⟩
    rwa [order_eq, order_eq]

/-- The only thing of a kind is compared lawfully. -/
theorem LawfulAt.ofSingle {rank : α → Nat}
    (ranked : ∀ x y, rank x ≠ rank y → order x y = compare (rank x) (rank y))
    (kind : ∀ x, rank x = rank a → x = a) (self : order a a = .eq) (related : unopposed a a) :
    LawfulAt order unopposed a := by
  have lawful : LawfulAt (fun _ _ => .eq) (fun _ _ => True) () :=
    ⟨rfl, fun _ _ _ _ _ => rfl, fun _ _ _ => rfl, fun _ opposed => absurd trivial opposed⟩
  exact lawful.ofKind (f := fun _ => a) ranked (fun x same => ⟨(), kind x same⟩) (fun _ _ => self)
    (fun _ _ => iff_of_true related trivial)

/-- Pairs in the order of their first parts, then of their second ones. -/
def pairOrder (order : α → α → Ordering) (order' : β → β → Ordering) (left right : α × β) :
    Ordering :=
  (order left.1 right.1).then (order' left.2 right.2)

/-- Neither the first parts nor the second ones are opposed. -/
def PairUnopposed (unopposed : α → α → Prop) (unopposed' : β → β → Prop) (left right : α × β) :
    Prop :=
  unopposed left.1 right.1 ∧ unopposed' left.2 right.2

/-- Pairs are compared lawfully if their parts are. -/
theorem LawfulAt.pair (first : LawfulAt order unopposed a)
    (second : LawfulAt order' unopposed' b) :
    LawfulAt (pairOrder order order') (PairUnopposed unopposed unopposed') (a, b) where
  self := by rw [pairOrder, first.self, second.self]; rfl
  chained lower upper whole :=
    (first.chained lower.1 upper.1 whole.1).then fun _ _ =>
      second.chained lower.2 upper.2 whole.2
  congr equal unopposed other := by
    obtain ⟨heads, tails⟩ := Ordering.then_eq_eq.mp equal
    rw [pairOrder, pairOrder, first.congr heads unopposed.1, second.congr tails unopposed.2]
  parted {pair} equal opposed := by
    obtain ⟨heads, tails⟩ := Ordering.then_eq_eq.mp equal
    by_cases alike : unopposed a pair.1
    · obtain ⟨c, swapped, apart⟩ := second.parted tails fun related => opposed ⟨alike, related⟩
      have same : order pair.1 a = .eq := (first.congr heads alike a).symm.trans first.self
      refine ⟨(a, c), ?_⟩
      simpa only [pairOrder, first.self, same, Ordering.eq_then] using ⟨swapped, apart⟩
    · obtain ⟨c, swapped, apart⟩ := first.parted heads alike
      refine ⟨(c, b), ?_⟩
      rw [pairOrder, pairOrder, swapped]
      cases outcome : order a c with
      | eq => exact absurd outcome apart
      | lt | gt => exact ⟨rfl, nofun⟩

/-- No two items at one position are opposed. -/
def ListUnopposed (unopposed : α → α → Prop) : List α → List α → Prop
  | left :: lefts, right :: rights => unopposed left right ∧ ListUnopposed unopposed lefts rights
  | _, _ => True

/-- Lists are compared lawfully if their items are. -/
theorem LawfulAt.list {items : List α} (lawful : ∀ item ∈ items, LawfulAt order unopposed item) :
    LawfulAt (List.compareLex order) (ListUnopposed unopposed) items := by
  let rank : List α → Nat := fun items => if items.isEmpty then 0 else 1
  have ranked (left right : List α) (differ : rank left ≠ rank right) :
      List.compareLex order left right = compare (rank left) (rank right) := by
    cases left <;> cases right <;> try rfl
    all_goals exact absurd rfl differ
  induction items with
  | nil =>
      refine .ofSingle ranked (fun other same => ?_) rfl trivial
      cases other with
      | nil => rfl
      | cons => cases same
  | cons item rest induction =>
      obtain ⟨head, tail⟩ := List.forall_mem_cons.mp lawful
      have both := head.pair (induction tail)
      refine both.ofKind (f := fun pair => pair.1 :: pair.2) ranked (fun other same => ?_)
        (fun _ _ => List.compareLex_cons_cons) (fun _ _ => ?_)
      · cases other with
        | nil => cases same
        | cons item rest => exact ⟨(item, rest), rfl⟩
      · exact Iff.rfl

end Laws

namespace Binary64

/-- The words are not two that are not numbers, one of either sign. -/
def Unopposed (left right : Binary64) : Prop :=
  left.isNaN → right.isNaN → left.isNegative = right.isNegative

instance (left right : Binary64) : Decidable (left.Unopposed right) :=
  inferInstanceAs (Decidable (_ → _ → _))

/-- Place of a word among the numbers; words that are not numbers share one place at either end. -/
def level (word : Binary64) : Int :=
  if word.isNaN then if word.isNegative then -infiniteMagnitude - 2 else infiniteMagnitude + 1
  else word.rank

/-- A word that is not a number lies outside the numbers, on the side of its sign. -/
theorem order_of_isNaN {word number : Binary64} (nan : word.isNaN) (real : number.isNaN = false) :
    order word number = if word.isNegative then .lt else .gt := by
  have outside : infiniteMagnitude < word.magnitude := by simpa [isNaN] using nan
  have inside : number.magnitude ≤ infiniteMagnitude := by simpa [isNaN] using real
  rw [order, real, Bool.and_false, if_neg Bool.false_ne_true]
  simp only [rank]
  split
  · exact compare_lt_iff_lt.mpr (by split <;> omega)
  · exact compare_gt_iff_gt.mpr (by split <;> omega)

/-- Words that are not opposed are in the order of their places. -/
theorem order_of_unopposed {left right : Binary64} (unopposed : left.Unopposed right) :
    order left right = compare left.level right.level := by
  have outside {word number : Binary64} (nan : word.isNaN) (real : number.isNaN = false) :
      order word number = compare word.level number.level := by
    have inside : number.magnitude ≤ infiniteMagnitude := by simpa [isNaN] using real
    rw [order_of_isNaN nan real]
    simp only [level, nan, real, rank, Bool.false_eq_true, if_false, if_true]
    split
    · exact (compare_lt_iff_lt.mpr (by split <;> omega)).symm
    · exact (compare_gt_iff_gt.mpr (by split <;> omega)).symm
  cases left_nan : left.isNaN <;> cases right_nan : right.isNaN
  · simp [order, level, left_nan, right_nan]
  · rw [order_swap right left, outside right_nan left_nan]
    exact Std.OrientedCmp.eq_swap.symm
  · exact outside left_nan right_nan
  · simp [order, level, left_nan, right_nan, unopposed left_nan right_nan]

theorem chained_order {a b c : Binary64} (lower : a.Unopposed b) (upper : b.Unopposed c)
    (whole : a.Unopposed c) : Chained (order a b) (order b c) (order a c) := by
  rw [order_of_unopposed lower, order_of_unopposed upper, order_of_unopposed whole]
  exact chained_compare _ _ _

/-- Equal words that are not opposed compare alike with every word. -/
theorem order_congr {left right : Binary64} (equal : order left right = .eq)
    (unopposed : left.Unopposed right) (other : Binary64) :
    order left other = order right other := by
  cases left_nan : left.isNaN with
  | false =>
      rw [order, left_nan, Bool.false_and, if_neg Bool.false_ne_true] at equal
      rw [rank_injective (Std.LawfulEqCmp.eq_of_compare equal)]
  | true =>
      cases right_nan : right.isNaN with
      | false =>
          rw [order_of_isNaN left_nan right_nan] at equal
          split at equal <;> cases equal
      | true =>
          cases real : other.isNaN with
          | false =>
              rw [order_of_isNaN left_nan real, order_of_isNaN right_nan real,
                unopposed left_nan right_nan]
          | true => simp [order, left_nan, right_nan, real]

/-- Zero lies between words that are opposed. -/
theorem order_zero_of_opposed {left right : Binary64} (opposed : ¬ left.Unopposed right) :
    order right (zero false) = (order left (zero false)).swap ∧ order left (zero false) ≠ .eq := by
  obtain ⟨left_nan, rest⟩ := Classical.not_imp.mp opposed
  obtain ⟨right_nan, signs⟩ := Classical.not_imp.mp rest
  have real : (zero false).isNaN = false := by decide
  rw [order_of_isNaN left_nan real, order_of_isNaN right_nan real]
  cases left_sign : left.isNegative <;> cases right_sign : right.isNegative <;> simp_all

theorem lawfulAt_order (word : Binary64) : LawfulAt order Unopposed word where
  self := order_eq_iff.mpr rfl
  chained := chained_order
  congr := order_congr
  parted _ opposed := ⟨zero false, order_zero_of_opposed opposed⟩

end Binary64

namespace Scalar

/-- The scalars are not two opposed words. -/
def Unopposed : Scalar → Scalar → Prop
  | float left, float right => left.Unopposed right
  | _, _ => True

theorem order_of_ranks (left right : Scalar) (differ : left.kindRank ≠ right.kindRank) :
    order left right = compare left.kindRank right.kindRank := by
  cases left <;> cases right <;> try rfl
  all_goals exact absurd rfl differ

theorem lawfulAt_order (leaf : Scalar) : LawfulAt order Unopposed leaf := by
  cases leaf with
  | bool value =>
      refine (lawfulAt_compare value).ofKind order_of_ranks (fun other same => ?_)
        (fun _ _ => rfl) (fun _ _ => Iff.rfl)
      cases other <;> cases same
      exact ⟨_, rfl⟩
  | int value =>
      refine (lawfulAt_compare value).ofKind order_of_ranks (fun other same => ?_)
        (fun _ _ => rfl) (fun _ _ => Iff.rfl)
      cases other <;> cases same
      exact ⟨_, rfl⟩
  | float word =>
      refine word.lawfulAt_order.ofKind order_of_ranks (fun other same => ?_)
        (fun _ _ => rfl) (fun _ _ => Iff.rfl)
      cases other <;> cases same
      exact ⟨_, rfl⟩
  | text value =>
      refine (lawfulAt_compare value).ofKind order_of_ranks (fun other same => ?_)
        (fun _ _ => rfl) (fun _ _ => Iff.rfl)
      cases other <;> cases same
      exact ⟨_, rfl⟩

end Scalar

namespace Value

variable {ρ : Type}

mutual

/-- Nowhere does one value hold a word that is not a number and the other one an opposed word. -/
def Unopposed : Value ρ → Value ρ → Prop
  | scalar left, scalar right => left.Unopposed right
  | seq left, seq right => UnopposedItems left right
  | map left, map right => UnopposedEntries left right
  | _, _ => True

/-- No two elements at one position are opposed. -/
def UnopposedItems : List (Value ρ) → List (Value ρ) → Prop
  | left :: lefts, right :: rights => Unopposed left right ∧ UnopposedItems lefts rights
  | _, _ => True

/-- No two keys or values at one position are opposed. -/
def UnopposedEntries : List (Value ρ × Value ρ) → List (Value ρ × Value ρ) → Prop
  | (key, value) :: lefts, (key', value') :: rights =>
    (Unopposed key key' ∧ Unopposed value value') ∧ UnopposedEntries lefts rights
  | _, _ => True

end

theorem unopposedItems_iff (left right : List (Value ρ)) :
    UnopposedItems left right ↔ ListUnopposed Unopposed left right := by
  induction left generalizing right with
  | nil => exact Iff.rfl
  | cons item rest induction =>
      cases right with
      | nil => exact Iff.rfl
      | cons other others => exact and_congr_right fun _ => induction others

theorem unopposedEntries_iff (left right : List (Value ρ × Value ρ)) :
    UnopposedEntries left right ↔
      ListUnopposed (PairUnopposed Unopposed Unopposed) left right := by
  induction left generalizing right with
  | nil => exact Iff.rfl
  | cons item rest induction =>
      cases right with
      | nil => exact Iff.rfl
      | cons other others => exact and_congr_right fun _ => induction others

section Comparison

variable [Ord ρ]

theorem orderItems_eq_compareLex (left right : List (Value ρ)) :
    orderItems left right = List.compareLex order left right := by
  induction left generalizing right with
  | nil => cases right <;> rfl
  | cons item rest induction =>
      cases right with
      | nil => rfl
      | cons other others => rw [orderItems, induction, List.compareLex_cons_cons]

theorem orderEntries_eq_compareLex (left right : List (Value ρ × Value ρ)) :
    orderEntries left right = List.compareLex (pairOrder order order) left right := by
  induction left generalizing right with
  | nil => cases right <;> rfl
  | cons entry rest induction =>
      cases right with
      | nil => rfl
      | cons other others =>
          rw [orderEntries, induction, List.compareLex_cons_cons, pairOrder, Ordering.then_assoc]

theorem order_of_ranks (left right : Value ρ) (differ : left.shapeRank ≠ right.shapeRank) :
    order left right = compare left.shapeRank right.shapeRank := by
  cases left <;> cases right <;> try rfl
  all_goals exact absurd rfl differ

theorem lawfulAt_order [Std.TransOrd ρ] (value : Value ρ) : LawfulAt order Unopposed value := by
  induction value using Value.induction with
  | null =>
      refine .ofSingle order_of_ranks (fun other same => ?_) rfl trivial
      cases other <;> cases same
      rfl
  | scalar leaf =>
      refine leaf.lawfulAt_order.ofKind order_of_ranks (fun other same => ?_) (fun _ _ => rfl)
        (fun _ _ => Iff.rfl)
      cases other <;> cases same
      exact ⟨_, rfl⟩
  | ref target =>
      refine (lawfulAt_compare target).ofKind order_of_ranks (fun other same => ?_)
        (fun _ _ => rfl) (fun _ _ => Iff.rfl)
      cases other <;> cases same
      exact ⟨_, rfl⟩
  | seq items induction =>
      refine (LawfulAt.list induction).ofKind order_of_ranks (fun other same => ?_)
        orderItems_eq_compareLex unopposedItems_iff
      cases other <;> cases same
      exact ⟨_, rfl⟩
  | map entries induction =>
      have pairs := LawfulAt.list fun entry member =>
        (induction entry member).1.pair (induction entry member).2
      refine pairs.ofKind order_of_ranks (fun other same => ?_) orderEntries_eq_compareLex
        unopposedEntries_iff
      cases other <;> cases same
      exact ⟨_, rfl⟩

end Comparison

/-- Swapping values swaps how they compare, and they compare equal exactly when they are equal.
Equal values compare alike with every value, and going up from either means going up from the other,
exactly when they are not opposed.  Among values that are not opposed the order is transitive. -/
theorem compare_lawful (a b c : Captured) :
    compare b a = (compare a b).swap ∧ (compare a b = .eq ↔ a == b) ∧
      (a == b → ((∀ other, compare a other = compare b other) ↔ a.Unopposed b) ∧
        ((∀ other, (compare a other).isLE ↔ (compare b other).isLE) ↔ a.Unopposed b)) ∧
      (a.Unopposed b → b.Unopposed c → a.Unopposed c →
        (compare a b).isLE → (compare b c).isLE → (compare a c).isLE) := by
  have lawful := lawfulAt_order a
  refine ⟨order_swap a b, compare_eq_iff_beq, fun equal => ?_,
    fun lower upper whole => (lawful.chained lower upper whole).isLE⟩
  have neither := compare_eq_iff_beq.mpr equal
  have alike (unopposed : a.Unopposed b) (other : Captured) :
      compare a other = compare b other := lawful.congr neither unopposed other
  refine ⟨⟨fun same => ?_, alike⟩, fun same => ?_, fun unopposed other => by
    rw [alike unopposed other]⟩
  · by_contra opposed
    obtain ⟨other, swapped, apart⟩ := lawful.parted neither opposed
    have swapped : compare a other = (compare a other).swap := (same other).trans swapped
    cases outcome : compare a other with
    | eq => exact apart outcome
    | lt | gt => simp [outcome] at swapped
  · by_contra opposed
    obtain ⟨other, swapped, apart⟩ := lawful.parted neither opposed
    have sides := same other
    have swapped : compare b other = (compare a other).swap := swapped
    rw [swapped] at sides
    cases outcome : compare a other with
    | eq => exact apart outcome
    | lt | gt => simp [outcome] at sides

/-- Words that are not numbers may differ in all but their signs. -/
theorem compare_lawful_payloads :
    let first : Binary64 := ⟨0xfff8000000000000⟩
    let second : Binary64 := ⟨0xffffffffffffffff⟩
    let a : Captured := .seq [.scalar (.float first), .null]
    let b : Captured := .seq [.scalar (.float second), .null]
    let c : Captured := .seq [.scalar (.float (.zero true)), .ref (.unbounded "Address")]
    a == b ∧ a.Unopposed b ∧ b.Unopposed c ∧ a.Unopposed c ∧ compare a c = compare b c ∧
      (compare a b).isLE ∧ (compare b c).isLE ∧ (compare a c).isLE := by
  intro first second a b c
  have words : first.Unopposed second := by decide
  have words_zero : second.Unopposed (.zero true) := by decide
  have words_whole : first.Unopposed (.zero true) := by decide
  have signs : a.Unopposed b := ⟨words, trivial, trivial⟩
  have lower : b.Unopposed c := ⟨words_zero, trivial, trivial⟩
  have whole : a.Unopposed c := ⟨words_whole, trivial, trivial⟩
  obtain ⟨-, -, equal, goes_up⟩ := compare_lawful a b c
  exact ⟨by decide, signs, lower, whole, (equal (by decide)).1.mpr signs c, by decide, by decide,
    goes_up signs lower whole (by decide) (by decide)⟩

/-- Words that are not numbers are equal whatever their signs, but zero is above one and below the
other. -/
theorem not_lawful_opposed :
    ¬ ∀ a b c : Captured,
      compare b a = (compare a b).swap ∧ (compare a b = .eq ↔ a == b) ∧
        (compare a b = .eq → compare a c = compare b c) ∧
        ((compare a b).isLE → (compare b c).isLE → (compare a c).isLE) := by
  intro lawful
  obtain ⟨-, -, alike, -⟩ := lawful (.scalar (.float (.nan false))) (.scalar (.float (.nan true)))
    (.scalar (.float (.zero false)))
  exact absurd (alike (by decide)) (by decide)

end Value

end AuditTrail
