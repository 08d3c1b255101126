import AuditTrail.Value
import Mathlib

/-!
# Native equality of values

Every value has a canonical form, in which words that are not numbers are one word.  Values are
equal exactly when they have one canonical form, so equality is an equivalence, and equal values
are printed alike.

The order of values agrees with equality: swapping the sides swaps the outcome, and values of
which neither comes first are equal.  It is not transitive across words that are not numbers.
-/

namespace AuditTrail

section Lists

variable {α : Type} [BEq α]

/-- Lists are equal when they are so element by element. -/
theorem beq_iff_forall₂ {left right : List α} :
    left == right ↔ List.Forall₂ (fun l r => l == r) left right := by
  induction left generalizing right with
  | nil => cases right <;> simp
  | cons l left induction => cases right <;> simp [induction]

theorem map_beq {items : List α} {change : α → α} (equal : ∀ item ∈ items, change item == item) :
    items.map change == items :=
  beq_iff_forall₂.mpr (List.forall₂_map_left_iff.mpr (List.forall₂_same.mpr equal))

end Lists

namespace Binary64

/-- The word itself, or the one that stands for all that are not numbers. -/
def canonical (word : Binary64) : Binary64 := if word.isNaN then nan false else word

theorem canonical_canonical (word : Binary64) : word.canonical.canonical = word.canonical := by
  by_cases nan : word.isNaN
  · have same : word.canonical = .nan false := if_pos nan
    rw [same]
    decide
  · have same : word.canonical = word := if_neg nan
    rw [same, same]

theorem rank_injective {left right : Binary64} (ranks : left.rank = right.rank) : left = right := by
  have words : left.bits.toNat = right.bits.toNat := by
    have left_bound := left.bits.toNat_lt
    have right_bound := right.bits.toNat_lt
    simp only [rank, isNegative, magnitude, signBit] at ranks
    norm_num at ranks left_bound right_bound
    split at ranks <;> split at ranks <;> omega
  cases left
  cases right
  simpa [UInt64.toNat_inj] using words

theorem order_eq_iff {left right : Binary64} :
    order left right = .eq ↔ left.canonical = right.canonical := by
  have nan_isNaN : (nan false).isNaN = true := by decide
  unfold order canonical
  cases left_nan : left.isNaN <;> cases right_nan : right.isNaN
  · simp only [Bool.and_false, Bool.false_eq_true, if_false, Std.LawfulEqCmp.compare_eq_iff_eq]
    exact ⟨rank_injective, congrArg rank⟩
  · simp only [Bool.false_and, Bool.false_eq_true, if_false, if_true,
      Std.LawfulEqCmp.compare_eq_iff_eq]
    constructor
    · intro ranks
      simp_all [rank_injective ranks]
    · rintro rfl
      simp_all
  · simp only [Bool.and_false, Bool.false_eq_true, if_false, if_true,
      Std.LawfulEqCmp.compare_eq_iff_eq]
    constructor
    · intro ranks
      simp_all [rank_injective ranks]
    · rintro rfl
      simp_all
  · simp

theorem order_swap (left right : Binary64) : order right left = (order left right).swap := by
  unfold order
  rw [Bool.and_comm]
  split
  · rfl
  · exact Std.OrientedCmp.eq_swap

end Binary64

/-- All words that are not numbers are written alike. -/
theorem Decimal.Layout.text_canonical (layout : Decimal.Layout) (word : Binary64) :
    layout.text word.canonical = layout.text word := by
  have printed : layout.text (Binary64.nan false) = "NaN" := by
    simp [text, show (Binary64.nan false).isNaN = true by decide]
  simp only [Binary64.canonical]
  split
  · next nan => rw [printed, text, if_pos nan]
  · rfl

namespace Scalar

/-- The scalar with its word in canonical form. -/
def canonical : Scalar → Scalar
  | float word => float word.canonical
  | other => other

theorem compare_eq_iff {left right : Scalar} :
    compare left right = .eq ↔ left.canonical = right.canonical := by
  change order left right = .eq ↔ _
  cases left <;> cases right <;>
    simp [order, canonical, kindRank, Std.LawfulEqCmp.compare_eq_iff_eq]
  exact Binary64.order_eq_iff

theorem beq_iff {left right : Scalar} : left == right ↔ left.canonical = right.canonical := by
  change (compare left right == .eq) = true ↔ _
  rw [beq_iff_eq]
  exact compare_eq_iff

/-- Only the word changes, and it stays equal. -/
theorem canonical_beq (leaf : Scalar) : leaf.canonical == leaf := by
  rw [beq_iff]
  cases leaf with
  | float word => exact congrArg float word.canonical_canonical
  | bool | int | text => rfl

instance : EquivBEq Scalar where
  rfl := beq_iff.mpr rfl
  symm equal := beq_iff.mpr (beq_iff.mp equal).symm
  trans first second := beq_iff.mpr ((beq_iff.mp first).trans (beq_iff.mp second))

theorem compare_swap (left right : Scalar) :
    compare right left = (compare left right).swap := by
  change order right left = (order left right).swap
  cases left <;> cases right <;> try rfl
  case bool.bool a b => exact (Std.OrientedCmp.eq_swap : compare b a = (compare a b).swap)
  case int.int a b => exact (Std.OrientedCmp.eq_swap : compare b a = (compare a b).swap)
  case float.float a b => exact Binary64.order_swap a b
  case text.text a b => exact (Std.OrientedCmp.eq_swap : compare b a = (compare a b).swap)

theorem display_canonical (leaf : Scalar) : leaf.canonical.display = leaf.display := by
  cases leaf with
  | float word => exact plainFloat.text_canonical word
  | bool | int | text => rfl

theorem content_canonical (leaf : Scalar) : leaf.canonical.content = leaf.content := by
  cases leaf with
  | float word => simp only [canonical, content, contentFloat.text_canonical]
  | bool | int | text => rfl

end Scalar

namespace Value

variable {ρ : Type}

/-- What holds of a value once it holds of all its parts holds of every value. -/
@[elab_as_elim]
theorem induction {motive : Value ρ → Prop} (null : motive null)
    (scalar : ∀ leaf, motive (scalar leaf)) (ref : ∀ target, motive (ref target))
    (seq : ∀ items, (∀ item ∈ items, motive item) → motive (seq items))
    (map : ∀ entries, (∀ entry ∈ entries, motive entry.1 ∧ motive entry.2) → motive (map entries))
    (value : Value ρ) : motive value := by
  refine @Value.rec ρ motive (fun items => ∀ item ∈ items, motive item)
    (fun entries => ∀ entry ∈ entries, motive entry.1 ∧ motive entry.2)
    (fun entry => motive entry.1 ∧ motive entry.2) null scalar ref seq map
    ?noItems ?items ?noEntries ?entries ?entry value
  case noItems => exact fun _ member => (nomatch member)
  case items => exact fun _ _ first others => List.forall_mem_cons.mpr ⟨first, others⟩
  case noEntries => exact fun _ member => (nomatch member)
  case entries => exact fun _ _ first others => List.forall_mem_cons.mpr ⟨first, others⟩
  case entry => exact fun _ _ key value => ⟨key, value⟩

mutual

/-- The value with all its leaves in canonical form. -/
def canonical : Value ρ → Value ρ
  | null => null
  | scalar leaf => scalar leaf.canonical
  | ref target => ref target
  | seq items => seq (canonicalItems items)
  | map entries => map (canonicalEntries entries)

/-- The elements in canonical form. -/
def canonicalItems : List (Value ρ) → List (Value ρ)
  | [] => []
  | item :: rest => canonical item :: canonicalItems rest

/-- The entries in canonical form. -/
def canonicalEntries : List (Value ρ × Value ρ) → List (Value ρ × Value ρ)
  | [] => []
  | (key, value) :: rest => (canonical key, canonical value) :: canonicalEntries rest

end

theorem canonicalItems_eq (items : List (Value ρ)) :
    canonicalItems items = items.map canonical := by
  induction items with
  | nil => rfl
  | cons item rest induction => rw [canonicalItems, induction, List.map_cons]

theorem canonicalEntries_eq (entries : List (Value ρ × Value ρ)) :
    canonicalEntries entries = entries.map (Prod.map canonical canonical) := by
  induction entries with
  | nil => rfl
  | cons entry rest induction => rw [canonicalEntries, induction, List.map_cons, Prod.map]

theorem canonical_canonical (value : Value ρ) : value.canonical.canonical = value.canonical := by
  induction value using Value.induction with
  | null | ref => rfl
  | scalar leaf => exact congrArg scalar (Scalar.beq_iff.mp leaf.canonical_beq)
  | seq items induction =>
      simp only [canonical, canonicalItems_eq, List.map_map, seq.injEq]
      exact List.map_congr_left induction
  | map entries induction =>
      simp only [canonical, canonicalEntries_eq, List.map_map, map.injEq]
      exact List.map_congr_left fun entry member =>
        Prod.ext (induction entry member).1 (induction entry member).2

theorem isNull_canonical (value : Value ρ) : value.canonical.isNull = value.isNull := by
  cases value <;> rfl

section Equality

mutual

theorem same_iff [BEq ρ] [LawfulBEq ρ] (left right : Value ρ) :
    same left right ↔ left.canonical = right.canonical := by
  cases left <;> cases right <;> simp [same, canonical, Scalar.beq_iff]
  · exact sameItems_iff _ _
  · exact sameEntries_iff _ _

theorem sameItems_iff [BEq ρ] [LawfulBEq ρ] (left right : List (Value ρ)) :
    sameItems left right ↔ canonicalItems left = canonicalItems right := by
  cases left <;> cases right <;> simp [sameItems, canonicalItems]
  rw [same_iff, sameItems_iff]

theorem sameEntries_iff [BEq ρ] [LawfulBEq ρ] (left right : List (Value ρ × Value ρ)) :
    sameEntries left right ↔ canonicalEntries left = canonicalEntries right := by
  rcases left with _ | ⟨⟨key, value⟩, left⟩ <;> rcases right with _ | ⟨⟨key', value'⟩, right⟩ <;>
    simp [sameEntries, canonicalEntries]
  rw [same_iff, same_iff, sameEntries_iff, and_assoc]

end

variable [BEq ρ] [LawfulBEq ρ]

/-- Values are equal when they have one canonical form. -/
theorem beq_iff {left right : Value ρ} : left == right ↔ left.canonical = right.canonical :=
  same_iff left right

/-- Only words change, and they stay equal. -/
theorem canonical_beq (value : Value ρ) : value.canonical == value :=
  beq_iff.mpr value.canonical_canonical

instance : EquivBEq (Value ρ) where
  rfl := beq_iff.mpr rfl
  symm equal := beq_iff.mpr (beq_iff.mp equal).symm
  trans first second := beq_iff.mpr ((beq_iff.mp first).trans (beq_iff.mp second))

/-- Equal values are null together. -/
theorem isNull_eq_of_beq {left right : Value ρ} (equal : left == right) :
    left.isNull = right.isNull := by
  rw [← isNull_canonical left, beq_iff.mp equal, isNull_canonical]

end Equality

section Order

mutual

theorem order_swap [Ord ρ] [Std.OrientedOrd ρ] (left right : Value ρ) :
    order right left = (order left right).swap := by
  cases left <;> cases right <;> try rfl
  case scalar.scalar a b => exact Scalar.compare_swap a b
  case ref.ref a b => exact (Std.OrientedCmp.eq_swap : compare b a = (compare a b).swap)
  case seq.seq as bs => exact orderItems_swap as bs
  case map.map as bs => exact orderEntries_swap as bs

theorem orderItems_swap [Ord ρ] [Std.OrientedOrd ρ] (left right : List (Value ρ)) :
    orderItems right left = (orderItems left right).swap := by
  cases left <;> cases right <;> try rfl
  simp only [orderItems, Ordering.swap_then]
  rw [order_swap, orderItems_swap]

theorem orderEntries_swap [Ord ρ] [Std.OrientedOrd ρ] (left right : List (Value ρ × Value ρ)) :
    orderEntries right left = (orderEntries left right).swap := by
  rcases left with _ | ⟨⟨key, value⟩, left⟩ <;>
    rcases right with _ | ⟨⟨key', value'⟩, right⟩ <;> try rfl
  simp only [orderEntries, Ordering.swap_then]
  rw [order_swap key, order_swap value, orderEntries_swap]

end

instance [Ord ρ] [Std.OrientedOrd ρ] : Std.OrientedOrd (Value ρ) where
  eq_swap {left right} := order_swap right left

mutual

theorem order_eq_iff [Ord ρ] [Std.LawfulEqOrd ρ] (left right : Value ρ) :
    order left right = .eq ↔ left.canonical = right.canonical := by
  cases left <;> cases right <;>
    simp [order, shapeRank, canonical, Scalar.compare_eq_iff, Std.LawfulEqCmp.compare_eq_iff_eq]
  · exact orderItems_eq_iff _ _
  · exact orderEntries_eq_iff _ _

theorem orderItems_eq_iff [Ord ρ] [Std.LawfulEqOrd ρ] (left right : List (Value ρ)) :
    orderItems left right = .eq ↔ canonicalItems left = canonicalItems right := by
  cases left <;> cases right <;> simp [orderItems, canonicalItems]
  rw [order_eq_iff, orderItems_eq_iff]

theorem orderEntries_eq_iff [Ord ρ] [Std.LawfulEqOrd ρ] (left right : List (Value ρ × Value ρ)) :
    orderEntries left right = .eq ↔ canonicalEntries left = canonicalEntries right := by
  rcases left with _ | ⟨⟨key, value⟩, left⟩ <;> rcases right with _ | ⟨⟨key', value'⟩, right⟩ <;>
    simp [orderEntries, canonicalEntries]
  rw [order_eq_iff, order_eq_iff, orderEntries_eq_iff, and_assoc]

end

/-- Values are equal when neither comes before the other. -/
theorem compare_eq_iff_beq [Ord ρ] [Std.LawfulEqOrd ρ] [BEq ρ] [LawfulBEq ρ]
    {left right : Value ρ} : compare left right = .eq ↔ left == right :=
  (order_eq_iff left right).trans beq_iff.symm

end Order

section References

theorem mem_referencesOfItems_iff {target : ρ} {items : List (Value ρ)} :
    target ∈ referencesOfItems items ↔ ∃ item ∈ items, target ∈ item.references := by
  induction items with
  | nil => simp [referencesOfItems]
  | cons item rest induction => simp [referencesOfItems, induction]

theorem mem_referencesOfEntries_iff {target : ρ} {entries : List (Value ρ × Value ρ)} :
    target ∈ referencesOfEntries entries ↔
      ∃ entry ∈ entries, target ∈ entry.1.references ∨ target ∈ entry.2.references := by
  induction entries with
  | nil => simp [referencesOfEntries]
  | cons entry rest induction =>
      obtain ⟨key, value⟩ := entry
      simp [referencesOfEntries, induction, or_assoc]

mutual

theorem references_canonical (value : Value ρ) : value.canonical.references = value.references := by
  cases value with
  | null | scalar | ref => rfl
  | seq items => simp only [canonical, references, referencesOfItems_canonical]
  | map entries => simp only [canonical, references, referencesOfEntries_canonical]

theorem referencesOfItems_canonical (items : List (Value ρ)) :
    referencesOfItems (canonicalItems items) = referencesOfItems items := by
  cases items with
  | nil => rfl
  | cons item rest =>
      simp only [canonicalItems, referencesOfItems, references_canonical,
        referencesOfItems_canonical]

theorem referencesOfEntries_canonical (entries : List (Value ρ × Value ρ)) :
    referencesOfEntries (canonicalEntries entries) = referencesOfEntries entries := by
  cases entries with
  | nil => rfl
  | cons entry rest =>
      obtain ⟨key, value⟩ := entry
      simp only [canonicalEntries, referencesOfEntries, references_canonical,
        referencesOfEntries_canonical]

end

/-- Equal values have the same references. -/
theorem references_eq_of_beq [BEq ρ] [LawfulBEq ρ] {left right : Value ρ} (equal : left == right) :
    left.references = right.references := by
  rw [← references_canonical left, beq_iff.mp equal, references_canonical]

end References

section Display

mutual

theorem display_canonical (value : Captured) : value.canonical.display = value.display := by
  cases value with
  | null | ref => rfl
  | scalar leaf => exact Scalar.display_canonical leaf
  | seq items => simp only [canonical, display, displayItems_canonical]
  | map entries => simp only [canonical, display, displayEntries_canonical]

theorem displayItems_canonical (items : List Captured) :
    displayItems (canonicalItems items) = displayItems items := by
  match items with
  | [] => rfl
  | [item] => simp only [canonicalItems, displayItems, display_canonical]
  | item :: next :: rest =>
      have others := displayItems_canonical (next :: rest)
      simp only [canonicalItems] at others
      simp only [canonicalItems, displayItems, display_canonical, others]

theorem displayEntries_canonical (entries : List (Captured × Captured)) :
    displayEntries (canonicalEntries entries) = displayEntries entries := by
  match entries with
  | [] => rfl
  | [(key, value)] => simp only [canonicalEntries, displayEntries, display_canonical]
  | (key, value) :: next :: rest =>
      have others := displayEntries_canonical (next :: rest)
      simp only [canonicalEntries] at others
      simp only [canonicalEntries, displayEntries, display_canonical, others]

end

/-- Equal values are printed alike. -/
theorem display_eq_of_beq {left right : Captured} (equal : left == right) :
    left.display = right.display := by
  rw [← display_canonical left, beq_iff.mp equal, display_canonical]

end Display
end Value
end AuditTrail
