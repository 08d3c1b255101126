import AuditTrail.Proofs.Codec.Reading
import AuditTrail.Proofs.Decimal.Rounding

/-!
# Written doubles

A numeral shows the digits of a word in one of two ways, and both stand for the same number.  Since
that number rounds to the word, the text of a word tells it, up to the words that are not numbers.
-/

namespace AuditTrail.Decimal

open Binary64

namespace Numeral

/-- The number without a sign that a numeral writes. -/
def value (numeral : Numeral) : ℚ :=
  (numeral.whole + ofDigits numeral.fraction / 10 ^ numeral.fraction.length) *
    10 ^ numeral.exponent.getD 0

/-- The characters of written numerals, apart from digits. -/
def marks : List Char := ['-', '+', '.', 'e']

theorem render_ne_empty (plus : Bool) (numeral : Numeral) : numeral.render plus ≠ "" := by
  intro empty
  have digits := (List.append_eq_nil_iff.mp
    ((Json.toList_render plus numeral).symm.trans (congrArg String.toList empty))).2
  exact Nat.toDigits_ne_nil (List.append_eq_nil_iff.mp digits).1

/-- A written numeral consists of digits and such marks. -/
theorem mem_render {plus : Bool} {numeral : Numeral} {c : Char}
    (small : ∀ digit ∈ numeral.fraction, digit < 10)
    (member : c ∈ (numeral.render plus).toList) : c.isDigit ∨ c ∈ marks := by
  have marked (negative : Bool) (mark : Char) (known : mark ∈ marks)
      (here : c ∈ if negative then [mark] else []) : c ∈ marks := by
    cases negative with
    | true => exact List.mem_singleton.mp here ▸ known
    | false => cases here
  rw [Json.toList_render, List.mem_append, List.mem_append, List.mem_append] at member
  rcases member with sign | whole | fraction | exponent
  · exact .inr (marked _ '-' (by decide) sign)
  · exact .inl (Json.isDigit_of_mem_toDigits whole)
  · rw [Json.fractionChars] at fraction
    split at fraction
    · cases fraction
    · rcases List.mem_cons.mp fraction with rfl | fraction
      · exact .inr (by decide)
      · obtain ⟨digit, digit_mem, rfl⟩ := List.mem_map.mp fraction
        exact .inl (Json.isDigit_digitChar (small digit digit_mem)).1
  · cases found : numeral.exponent with
    | none =>
        rw [found] at exponent
        cases exponent
    | some e =>
        rw [found, Json.exponentChars, List.mem_cons, List.mem_append] at exponent
        rcases exponent with rfl | sign | digits
        · exact .inr (by decide)
        · split at sign
          · exact .inr (marked true '-' (by decide) sign)
          · exact .inr (marked plus '+' (by decide) sign)
        · exact .inl (Json.isDigit_of_mem_toDigits digits)

end Numeral

namespace Layout

variable {layout : Layout} {word other : Binary64} {negative : Bool} {scaled : Scaled}
  {places n : Nat}

theorem ofDigits_padded (places n : Nat) : ofDigits (padded places n) = n := by
  rw [padded, ofDigits, List.foldl_append]
  have zeros (count : Nat) :
      (List.replicate count 0).foldl (fun n digit => 10 * n + digit) 0 = 0 := by
    induction count with
    | zero => rfl
    | succ count induction => exact induction
  rw [zeros]
  exact Json.ofDigits_digits n

theorem length_padded (some_places : 0 < places) (small : n < 10 ^ places) :
    (padded places n).length = places := by
  have few : (digits n).length ≤ places := by
    rw [digits, List.length_map]
    exact Nat.toDigits_length 10 n places some_places small
  rw [padded, List.length_append, List.length_replicate]
  omega

/-- Digits that are split at a place stand for the same number. -/
theorem split_digits (some_places : 0 < places) :
    ((n / 10 ^ places : Nat) : ℚ) + ofDigits (padded places (n % 10 ^ places)) /
      10 ^ (padded places (n % 10 ^ places)).length = n / 10 ^ places := by
  have small : n % 10 ^ places < 10 ^ places := Nat.mod_lt _ (Nat.pow_pos (by norm_num))
  have whole : (n : ℚ) = 10 ^ places * (n / 10 ^ places : Nat) + (n % 10 ^ places : Nat) := by
    exact_mod_cast (Nat.div_add_mod n (10 ^ places)).symm
  rw [ofDigits_padded, length_padded some_places small]
  rw [whole]
  field_simp

/-- A number that is written out is the number that its digits stand for. -/
theorem value_writtenOut : (layout.writtenOut negative scaled).value = scaled.value := by
  obtain ⟨digits, place⟩ := scaled
  rw [Numeral.value, Scaled.value, writtenOut]
  simp only [Option.getD_none, zpow_zero, mul_one, Nat.pow_eq]
  by_cases whole : 0 ≤ place
  · obtain ⟨place, rfl⟩ := Int.eq_ofNat_of_zero_le whole
    have nothing : ofDigits (if layout.pointZero then [0] else []) = 0 := by
      cases layout.pointZero <;> rfl
    simp [nothing]
  · obtain ⟨place, rfl⟩ : ∃ size : Nat, place = -size := ⟨(-place).toNat, by omega⟩
    have some_places : 0 < place := by omega
    have length := length_padded (n := digits % 10 ^ place) some_places
      (Nat.mod_lt _ (Nat.pow_pos (by norm_num)))
    have filled : (padded place (digits % 10 ^ place)).isEmpty = false := by
      rw [List.isEmpty_eq_false_iff, ← List.length_pos_iff, length]
      exact some_places
    simp only [whole, if_false, neg_neg, Int.toNat_natCast, filled, Bool.false_and,
      Bool.false_eq_true]
    rw [split_digits some_places, zpow_neg, zpow_natCast, div_eq_mul_inv]

/-- A number with an exponent is the number that its digits stand for. -/
theorem value_withExponent : (withExponent negative scaled).value = scaled.value := by
  rw [Numeral.value, Scaled.value, withExponent]
  simp only [Option.getD_some, Nat.pow_eq]
  generalize count scaled.digits - 1 = places
  have whole : ((scaled.digits / 10 ^ places : Nat) : ℚ) +
      ofDigits (if places = 0 then [] else padded places (scaled.digits % 10 ^ places)) /
        10 ^ (if places = 0 then [] else padded places (scaled.digits % 10 ^ places)).length =
      scaled.digits / 10 ^ places := by
    by_cases none : places = 0
    · simp [none, ofDigits]
    · rw [if_neg none]
      exact split_digits (Nat.pos_of_ne_zero none)
  rw [whole, zpow_add₀ (by norm_num), zpow_natCast]
  field_simp

/-- The numeral of a word other than zero stands for its shortest digits. -/
theorem value_numeral (nonzero : word.magnitude ≠ 0) :
    (layout.numeral word).value = (shortest layout.tie word).value := by
  rw [numeral, if_neg nonzero]
  simp only
  split
  · exact value_writtenOut
  · split
    · exact value_writtenOut
    · exact value_withExponent

theorem value_numeral_zero (zero : word.magnitude = 0) : (layout.numeral word).value = 0 := by
  rw [numeral, if_pos zero, value_writtenOut, Scaled.value, Nat.cast_zero, zero_mul]

theorem negative_numeral (layout : Layout) (word : Binary64) :
    (layout.numeral word).negative = word.isNegative := by
  unfold numeral
  split
  · rfl
  · simp only
    split
    · rfl
    · split <;> rfl

/-- A number that rounds to a magnitude other than zero is positive. -/
theorem pos_of_roundsTo {number : ℚ} (nonzero : word.magnitude ≠ 0)
    (rounds : RoundsTo number word.magnitude) : 0 < number := by
  have some_significand : (1 : ℚ) ≤ significandAt word.magnitude := by
    exact_mod_cast significand_pos nonzero
  have positive : 0 < lowEnd word.magnitude := by
    rw [lowEnd]
    apply mul_pos _ (quarter_pos _)
    split <;> linarith
  exact positive.trans_le rounds.above

/-- The numeral of a finite word tells the word. -/
theorem numeral_inj (finite : word.isFinite) (other_finite : other.isFinite)
    (same : layout.numeral word = layout.numeral other) : word = other := by
  have signs : word.isNegative = other.isNegative := by
    rw [← layout.negative_numeral word, same, negative_numeral]
  have values := congrArg Numeral.value same
  have magnitudes : word.magnitude = other.magnitude := by
    by_cases zero : word.magnitude = 0
    · by_cases other_zero : other.magnitude = 0
      · rw [zero, other_zero]
      · have rounds : RoundsTo (shortest layout.tie other).value other.magnitude :=
          roundsTo_shortest other_finite other_zero
        have positive := pos_of_roundsTo other_zero rounds
        rw [value_numeral_zero zero, value_numeral other_zero] at values
        exact absurd values positive.ne
    · have rounds : RoundsTo (shortest layout.tie word).value word.magnitude :=
        roundsTo_shortest finite zero
      by_cases other_zero : other.magnitude = 0
      · rw [value_numeral_zero other_zero, value_numeral zero] at values
        exact absurd values (pos_of_roundsTo zero rounds).ne'
      · rw [value_numeral zero, value_numeral other_zero] at values
        rw [values] at rounds
        exact rounds.unique (roundsTo_shortest other_finite other_zero)
  rw [← word.ofMagnitude_magnitude, signs, magnitudes, other.ofMagnitude_magnitude]

/-- A finite word is written as its numeral. -/
theorem text_of_isFinite (layout : Layout) (finite : word.isFinite) :
    layout.text word = (layout.numeral word).render layout.plus := by
  have below : word.magnitude < infiniteMagnitude := of_decide_eq_true finite
  have number : word.isNaN = false := decide_eq_false (not_lt.mpr below.le)
  have bounded : word.isInfinite = false := beq_eq_false_iff_ne.mpr below.ne
  simp only [text, number, bounded, Bool.false_eq_true, if_false]

/-- The text of a finite word is read as its numeral. -/
theorem read?_text (layout : Layout) (finite : word.isFinite) :
    Numeral.read? (layout.text word).toList = some (layout.numeral word, []) := by
  have ends : Json.Ends [] := trivial
  have read := Json.read?_render layout.plus (layout.fraction_numeral_lt word) ends
  rw [List.append_nil] at read
  rw [layout.text_of_isFinite finite, read]

/-- What is not finite is written as a word. -/
theorem text_of_not_isFinite (layout : Layout) (unbounded : ¬ word.isFinite) :
    layout.text word = "NaN" ∧ word.isNaN ∨
      word.magnitude = infiniteMagnitude ∧
        layout.text word = if word.isNegative then "-inf" else "inf" := by
  have above : infiniteMagnitude ≤ word.magnitude := by simpa [isFinite] using unbounded
  rcases above.lt_or_eq with more | same
  · have nan : word.isNaN := decide_eq_true more
    exact .inl ⟨by rw [text, if_pos nan], nan⟩
  · have number : word.isNaN = false := decide_eq_false (not_lt.mpr same.ge)
    have infinite : word.isInfinite := beq_iff_eq.mpr same.symm
    refine .inr ⟨same.symm, ?_⟩
    simp only [text, number, infinite, Bool.false_eq_true, if_false, if_true]

theorem read?_text_of_not_isFinite (layout : Layout) (unbounded : ¬ word.isFinite) :
    Numeral.read? (layout.text word).toList = none := by
  rcases layout.text_of_not_isFinite unbounded with ⟨written, -⟩ | ⟨-, written⟩
  · rw [written]
    decide
  · rw [written]
    split <;> decide

/-- What is written as a word is told by it. -/
theorem text_inj_of_not_isFinite (unbounded : ¬ word.isFinite) (other_unbounded : ¬ other.isFinite)
    (same : layout.text word = layout.text other) : word.canonical = other.canonical := by
  rcases layout.text_of_not_isFinite unbounded with ⟨written, nan⟩ | ⟨infinite, written⟩
  · rcases layout.text_of_not_isFinite other_unbounded with
      ⟨-, other_nan⟩ | ⟨-, other_written⟩
    · rw [canonical, if_pos nan, canonical, if_pos other_nan]
    · rw [written, other_written] at same
      split at same <;> exact absurd same (by decide)
  · rcases layout.text_of_not_isFinite other_unbounded with
      ⟨other_written, -⟩ | ⟨other_infinite, other_written⟩
    · rw [written, other_written] at same
      split at same <;> exact absurd same (by decide)
    · have signs : word.isNegative = other.isNegative := by
        rw [written, other_written] at same
        revert same
        cases word.isNegative <;> cases other.isNegative <;> decide
      rw [← word.ofMagnitude_magnitude, signs, infinite, ← other_infinite,
        other.ofMagnitude_magnitude]

/-- The text of a word tells its canonical form. -/
theorem text_inj (same : layout.text word = layout.text other) :
    word.canonical = other.canonical := by
  by_cases finite : word.isFinite
  · have read := layout.read?_text finite
    rw [same] at read
    by_cases other_finite : other.isFinite
    · rw [layout.read?_text other_finite] at read
      have numerals : layout.numeral word = layout.numeral other :=
        (Prod.mk.inj (Option.some.inj read)).1.symm
      rw [numeral_inj finite other_finite numerals]
    · rw [layout.read?_text_of_not_isFinite other_finite] at read
      cases read
  · have unread := layout.read?_text_of_not_isFinite finite
    by_cases other_finite : other.isFinite
    · rw [same, layout.read?_text other_finite] at unread
      cases unread
    · exact text_inj_of_not_isFinite finite other_finite same

theorem text_ne_empty (layout : Layout) (word : Binary64) : layout.text word ≠ "" := by
  by_cases finite : word.isFinite
  · rw [layout.text_of_isFinite finite]
    exact Numeral.render_ne_empty _ _
  · rcases layout.text_of_not_isFinite finite with ⟨written, -⟩ | ⟨-, written⟩
    · rw [written]
      decide
    · rw [written]
      split <;> decide

/-- A text consists of the characters of a numeral, or is the name of what is no number. -/
theorem mem_text {c : Char} (member : c ∈ (layout.text word).toList) :
    c.isDigit ∨ c ∈ Numeral.marks ++ "NaN".toList ++ "inf".toList := by
  rw [List.mem_append, List.mem_append]
  by_cases finite : word.isFinite
  · rw [layout.text_of_isFinite finite] at member
    exact (Numeral.mem_render (layout.fraction_numeral_lt word) member).imp_right fun known =>
      .inl (.inl known)
  · rcases layout.text_of_not_isFinite finite with ⟨written, -⟩ | ⟨-, written⟩
    · rw [written] at member
      exact .inr (.inl (.inr member))
    · rw [written] at member
      split at member
      · rcases List.mem_cons.mp member with rfl | member
        · exact .inr (.inl (.inl (by decide)))
        · exact .inr (.inr member)
      · exact .inr (.inr member)

end Layout

end AuditTrail.Decimal
