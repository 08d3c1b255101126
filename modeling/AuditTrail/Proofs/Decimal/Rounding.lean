import AuditTrail.Decimal.Shortest
import Mathlib

/-!
# Shortest digits round to their word

The numbers that round to a word lie between two ends.  The ends of different words meet at most in
one point, which then does not belong to both words.  The shortest digits of a word are found on one
of the decimal grids that are searched and lie between its ends, so they tell the word.
-/

namespace AuditTrail

namespace Binary64

/-- The significand of the finite words of a magnitude. -/
def significandAt (magnitude : Nat) : Nat :=
  if magnitude / binade = 0 then magnitude % binade else binade + magnitude % binade

/-- The exponent of the finite words of a magnitude. -/
def exponentAt (magnitude : Nat) : Int := (max (magnitude / binade) 1 : Nat) - 1075

/-- A quarter of the last place of a magnitude. -/
def quarter (magnitude : Nat) : ℚ := 2 ^ (exponentAt magnitude - 2)

/-- The lower end of the numbers that round to a magnitude. -/
def lowEnd (magnitude : Nat) : ℚ :=
  (4 * significandAt magnitude - if magnitude % binade = 0 ∧ 1 ≤ magnitude / binade then 1 else 2) *
    quarter magnitude

/-- The upper end of the numbers that round to a magnitude. -/
def highEnd (magnitude : Nat) : ℚ := (4 * significandAt magnitude + 2) * quarter magnitude

theorem quarter_pos (magnitude : Nat) : 0 < quarter magnitude := zpow_pos (by norm_num) _

theorem lowEnd_lt_highEnd (magnitude : Nat) : lowEnd magnitude < highEnd magnitude := by
  have positive := quarter_pos magnitude
  rw [lowEnd, highEnd]
  apply mul_lt_mul_of_pos_right _ positive
  split <;> linarith

/-- Within a binade the next significand is one larger. -/
theorem succ_within {magnitude : Nat} (within : magnitude % binade + 1 ≠ binade) :
    significandAt (magnitude + 1) = significandAt magnitude + 1 ∧
      exponentAt (magnitude + 1) = exponentAt magnitude ∧ (magnitude + 1) % binade ≠ 0 := by
  have size : binade = 4503599627370496 := rfl
  simp only [significandAt, exponentAt, size] at within ⊢
  have same : (magnitude + 1) / 4503599627370496 = magnitude / 4503599627370496 := by omega
  rw [same]
  refine ⟨?_, rfl, by omega⟩
  split <;> omega

/-- A binade starts with the hidden bit alone. -/
theorem succ_across {magnitude : Nat} (last : magnitude % binade + 1 = binade) :
    significandAt (magnitude + 1) = binade ∧ (magnitude + 1) % binade = 0 ∧
      1 ≤ (magnitude + 1) / binade ∧
      (significandAt magnitude + 1 = binade ∧
          exponentAt (magnitude + 1) = exponentAt magnitude ∨
        significandAt magnitude + 1 = 2 * binade ∧
          exponentAt (magnitude + 1) = exponentAt magnitude + 1) := by
  have size : binade = 4503599627370496 := rfl
  simp only [significandAt, exponentAt, size] at last ⊢
  have next : (magnitude + 1) / 4503599627370496 = magnitude / 4503599627370496 + 1 := by omega
  rw [next]
  refine ⟨?_, by omega, by omega, ?_⟩
  · rw [if_neg (by omega)]
    omega
  · by_cases first : magnitude / 4503599627370496 = 0
    · rw [if_pos first, first]
      exact .inl ⟨last, rfl⟩
    · rw [if_neg first, max_eq_left (by omega), max_eq_left (by omega)]
      exact .inr ⟨by omega, by push_cast; ring⟩

/-- The upper end of a magnitude does not lie above the lower end of the next one. -/
theorem highEnd_le_lowEnd_succ (magnitude : Nat) :
    highEnd magnitude ≤ lowEnd (magnitude + 1) := by
  have positive := quarter_pos magnitude
  by_cases last : magnitude % binade + 1 = binade
  · obtain ⟨starts, start, above, ⟨ends, same⟩ | ⟨ends, next⟩⟩ := succ_across last
    · have ends : (significandAt magnitude : ℚ) + 1 = binade := by exact_mod_cast ends
      have kept : quarter (magnitude + 1) = quarter magnitude := by rw [quarter, same, quarter]
      rw [highEnd, lowEnd, if_pos ⟨start, above⟩, starts, kept]
      apply mul_le_mul_of_nonneg_right _ positive.le
      linarith
    · have ends : (significandAt magnitude : ℚ) + 1 = 2 * binade := by exact_mod_cast ends
      have doubled : quarter (magnitude + 1) = 2 * quarter magnitude := by
        rw [quarter, quarter, next, ← zpow_one_add₀ (by norm_num)]
        congr 1
        ring
      rw [highEnd, lowEnd, if_pos ⟨start, above⟩, starts, doubled, ← mul_assoc]
      apply mul_le_mul_of_nonneg_right _ positive.le
      linarith
  · obtain ⟨succ, same, within⟩ := succ_within last
    have kept : quarter (magnitude + 1) = quarter magnitude := by rw [quarter, same, quarter]
    rw [highEnd, lowEnd, if_neg fun start => within start.1, succ, kept]
    apply mul_le_mul_of_nonneg_right _ positive.le
    push_cast
    linarith

/-- Of two magnitudes that follow each other, one has an odd significand. -/
theorem odd_succ {magnitude : Nat} (even : significandAt magnitude % 2 = 0) :
    significandAt (magnitude + 1) % 2 = 1 := by
  have size : binade = 4503599627370496 := rfl
  by_cases last : magnitude % binade + 1 = binade
  · obtain ⟨-, -, -, ⟨ends, -⟩ | ⟨ends, -⟩⟩ := succ_across last <;> omega
  · rw [(succ_within last).1]
    omega

theorem highEnd_le_lowEnd {magnitude other : Nat} (less : magnitude < other) :
    highEnd magnitude ≤ lowEnd other := by
  induction other, less using Nat.le_induction with
  | base => exact highEnd_le_lowEnd_succ magnitude
  | succ other _ induction =>
      exact induction.trans ((lowEnd_lt_highEnd other).le.trans (highEnd_le_lowEnd_succ other))

/-- A number rounds to a magnitude: it lies between its ends, or at one of them if the significand
is even. -/
structure RoundsTo (number : ℚ) (magnitude : Nat) : Prop where
  /-- The number does not lie below the lower end. -/
  above : lowEnd magnitude ≤ number
  /-- The number does not lie above the upper end. -/
  below : number ≤ highEnd magnitude
  /-- Ends belong to even significands only. -/
  inside : significandAt magnitude % 2 = 0 ∨ lowEnd magnitude < number ∧ number < highEnd magnitude

/-- No number rounds to a magnitude and to a larger one. -/
theorem RoundsTo.not_less {number : ℚ} {magnitude other : Nat} (rounds : RoundsTo number magnitude)
    (also : RoundsTo number other) : ¬ magnitude < other := by
  intro less
  have apart := highEnd_le_lowEnd less
  -- The number is the end where both meet, so both significands are even.
  rcases rounds.inside with even | ⟨-, below⟩
  · rcases also.inside with other_even | ⟨above, -⟩
    · have gap : magnitude + 1 ≠ other := by
        rintro rfl
        have odd := odd_succ even
        omega
      have between := highEnd_le_lowEnd (show magnitude + 1 < other by omega)
      have step := highEnd_le_lowEnd_succ magnitude
      have proper := lowEnd_lt_highEnd (magnitude + 1)
      have above := also.above
      have below := rounds.below
      linarith
    · exact absurd (rounds.below.trans apart) (not_le.mpr above)
  · exact absurd (apart.trans also.above) (not_le.mpr below)

/-- A number rounds to one magnitude. -/
theorem RoundsTo.unique {number : ℚ} {magnitude other : Nat} (rounds : RoundsTo number magnitude)
    (also : RoundsTo number other) : magnitude = other :=
  le_antisymm (not_lt.mp (also.not_less rounds)) (not_lt.mp (rounds.not_less also))

end Binary64

namespace Decimal

open Binary64

/-- The numerator of a power with an integer exponent. -/
def factor (base : Nat) (place : Int) : Nat := if 0 ≤ place then Nat.pow base place.toNat else 1

/-- The denominator of a power with an integer exponent. -/
def divisor (base : Nat) (place : Int) : Nat := if 0 ≤ place then 1 else Nat.pow base (-place).toNat

theorem factor_div_divisor (base : Nat) (place : Int) :
    (factor base place : ℚ) / divisor base place = base ^ place := by
  rw [factor, divisor]
  split
  next above =>
    obtain ⟨size, rfl⟩ := Int.eq_ofNat_of_zero_le above
    simp
  next below =>
    obtain ⟨size, rfl⟩ : ∃ size : Nat, place = -size := ⟨(-place).toNat, by omega⟩
    simp

theorem factor_pos {base : Nat} (positive : 0 < base) (place : Int) : 0 < factor base place := by
  rw [factor]
  split
  · exact Nat.pow_pos positive
  · exact Nat.one_pos

theorem divisor_pos {base : Nat} (positive : 0 < base) (place : Int) : 0 < divisor base place := by
  rw [divisor]
  split
  · exact Nat.one_pos
  · exact Nat.pow_pos positive

/-- The number that digits with a place stand for. -/
def Scaled.value (scaled : Scaled) : ℚ := scaled.digits * 10 ^ scaled.place

section Words

variable {word : Binary64} {tie : Tie} {place : Int}

theorem significand_pos (nonzero : word.magnitude ≠ 0) : 0 < significandAt word.magnitude := by
  have size : binade = 4503599627370496 := rfl
  rw [significandAt, size]
  split <;> omega

/-- An interval admits what lies between its ends, the ends included if it is closed. -/
theorem RoundingInterval.admits_iff (interval : RoundingInterval)
    (common : 0 < interval.denominator) {numerator denominator : Nat} (positive : 0 < denominator) :
    interval.admits numerator denominator ↔
      (interval.lower / interval.denominator : ℚ) ≤ numerator / denominator ∧
        (numerator / denominator : ℚ) ≤ interval.upper / interval.denominator ∧
        (interval.closed ∨ (interval.lower / interval.denominator : ℚ) < numerator / denominator ∧
          (numerator / denominator : ℚ) < interval.upper / interval.denominator) := by
  have common : (0 : ℚ) < interval.denominator := by exact_mod_cast common
  have positive : (0 : ℚ) < denominator := by exact_mod_cast positive
  rw [div_le_div_iff₀ common positive, div_le_div_iff₀ positive common,
    div_lt_div_iff₀ common positive, div_lt_div_iff₀ positive common, admits]
  norm_cast
  cases interval.closed with
  | true => simp
  | false =>
      simp only [Bool.false_eq_true, if_false, Bool.and_eq_true, decide_eq_true_eq, false_or]
      exact ⟨fun inside => ⟨inside.1.le, inside.2.le, inside⟩, fun inside => inside.2.2⟩

theorem quarter_eq (magnitude : Nat) :
    quarter magnitude =
      factor 2 (exponentAt magnitude - 2) / divisor 2 (exponentAt magnitude - 2) := by
  rw [quarter, factor_div_divisor, Nat.cast_ofNat]

theorem denominator_ofWord (word : Binary64) :
    (RoundingInterval.ofWord word).denominator = divisor 2 (exponentAt word.magnitude - 2) :=
  rfl

theorem lower_ofWord (nonzero : word.magnitude ≠ 0) :
    ((RoundingInterval.ofWord word).lower / (RoundingInterval.ofWord word).denominator : ℚ) =
      lowEnd word.magnitude := by
  have some_significand := significand_pos nonzero
  have lower : (RoundingInterval.ofWord word).lower =
      (4 * significandAt word.magnitude - if word.isBinadeStart then 1 else 2) *
        factor 2 (exponentAt word.magnitude - 2) := rfl
  have start : word.isBinadeStart =
      decide (word.magnitude % binade = 0 ∧ 1 ≤ word.magnitude / binade) := by
    rw [Binary64.isBinadeStart, Bool.decide_and]
    rfl
  have few : (if word.isBinadeStart then 1 else 2) ≤ 4 * significandAt word.magnitude := by
    split <;> omega
  rw [lower, denominator_ofWord, lowEnd, quarter_eq, Nat.cast_mul, Nat.cast_sub few,
    mul_div_assoc, start]
  simp only [decide_eq_true_eq]
  push_cast
  rfl

theorem upper_ofWord (word : Binary64) :
    ((RoundingInterval.ofWord word).upper / (RoundingInterval.ofWord word).denominator : ℚ) =
      highEnd word.magnitude := by
  have upper : (RoundingInterval.ofWord word).upper =
      (4 * significandAt word.magnitude + 2) * factor 2 (exponentAt word.magnitude - 2) := rfl
  rw [upper, denominator_ofWord, highEnd, quarter_eq, Nat.cast_mul, mul_div_assoc]
  push_cast
  rfl

/-- The interval of a word consists of the numbers that round to its magnitude. -/
theorem admits_ofWord_iff (nonzero : word.magnitude ≠ 0) {numerator denominator : Nat}
    (positive : 0 < denominator) :
    (RoundingInterval.ofWord word).admits numerator denominator ↔
      RoundsTo (numerator / denominator) word.magnitude := by
  have closed : (RoundingInterval.ofWord word).closed =
      decide (significandAt word.magnitude % 2 = 0) := rfl
  rw [RoundingInterval.admits_iff _ (divisor_pos (by norm_num) _) positive, lower_ofWord nonzero,
    upper_ofWord, closed, decide_eq_true_iff]
  exact ⟨fun ⟨above, below, inside⟩ => ⟨above, below, inside⟩,
    fun rounds => ⟨rounds.above, rounds.below, rounds.inside⟩⟩

section Grids

variable (interval : RoundingInterval) (tie : Tie) (place : Int)

/-- The digits of the grid point at or below the number that is rounded to. -/
def gridBelow : Nat :=
  interval.value * divisor 10 place / (factor 10 place * interval.denominator)

/-- Whether a grid point belongs to the interval. -/
def gridFits (digits : Nat) : Bool :=
  interval.admits (digits * factor 10 place) (divisor 10 place)

/-- The candidate is the neighbour on the grid that fits, and one of them if both do. -/
theorem exists_candidate?_eq :
    ∃ chosen, (chosen = gridBelow interval place ∨ chosen = gridBelow interval place + 1) ∧
      interval.candidate? tie place =
        if gridFits interval place (gridBelow interval place) &&
            gridFits interval place (gridBelow interval place + 1) then some chosen
        else if gridFits interval place (gridBelow interval place) then
          some (gridBelow interval place)
        else if gridFits interval place (gridBelow interval place + 1) then
          some (gridBelow interval place + 1)
        else none := by
  -- The tie matters only where the word is midway between two neighbours that both fit.
  have pick (last : Option Nat) (known : last = some (gridBelow interval place) ∨
      last = some (gridBelow interval place + 1)) :
      ∃ chosen, (chosen = gridBelow interval place ∨ chosen = gridBelow interval place + 1) ∧
        (if 2 * (interval.value * divisor 10 place % (factor 10 place * interval.denominator)) <
            factor 10 place * interval.denominator then some (gridBelow interval place)
          else if factor 10 place * interval.denominator <
              2 * (interval.value * divisor 10 place % (factor 10 place * interval.denominator))
            then some (gridBelow interval place + 1)
          else last) = some chosen := by
    split
    · exact ⟨_, .inl rfl, rfl⟩
    · split
      · exact ⟨_, .inr rfl, rfl⟩
      · rcases known with rfl | rfl
        · exact ⟨_, .inl rfl, rfl⟩
        · exact ⟨_, .inr rfl, rfl⟩
  cases tie with
  | up =>
      obtain ⟨chosen, choice, same⟩ := pick (some (gridBelow interval place + 1)) (.inr rfl)
      refine ⟨chosen, choice, ?_⟩
      rw [← same]
      rfl
  | even =>
      obtain ⟨chosen, choice, same⟩ := pick (some (if gridBelow interval place % 2 = 0 then
        gridBelow interval place else gridBelow interval place + 1))
        ((ite_eq_or_eq _ _ _).imp (congrArg some) (congrArg some))
      refine ⟨chosen, choice, ?_⟩
      rw [← same]
      rfl

variable {interval tie place}

/-- A number lies between its neighbours on a grid. -/
theorem gridBelow_bounds (common : 0 < interval.denominator) :
    Scaled.value ⟨gridBelow interval place, place⟩ ≤ interval.value / interval.denominator ∧
      (interval.value / interval.denominator : ℚ) <
        Scaled.value ⟨gridBelow interval place, place⟩ + 10 ^ place := by
  have step_pos : 0 < factor 10 place * interval.denominator :=
    Nat.mul_pos (factor_pos (by norm_num) place) common
  have below := Nat.div_mul_le_self (interval.value * divisor 10 place)
    (factor 10 place * interval.denominator)
  have above := Nat.lt_mul_div_succ (interval.value * divisor 10 place) step_pos
  rw [← gridBelow] at below above
  have spacing : (10 : ℚ) ^ place = factor 10 place / divisor 10 place := by
    rw [factor_div_divisor, Nat.cast_ofNat]
  have common : (0 : ℚ) < interval.denominator := by exact_mod_cast common
  have divisor_pos : (0 : ℚ) < divisor 10 place := by exact_mod_cast divisor_pos (by norm_num) _
  rw [Scaled.value, spacing, ← add_one_mul, ← mul_div_assoc, ← mul_div_assoc,
    div_le_div_iff₀ divisor_pos common, div_lt_div_iff₀ common divisor_pos]
  constructor
  · rw [mul_assoc]
    exact_mod_cast below
  · rw [mul_assoc, mul_comm _ (_ * _)]
    exact_mod_cast above

theorem gridFits_of_candidate? {digits : Nat}
    (found : interval.candidate? tie place = some digits) :
    gridFits interval place digits := by
  obtain ⟨chosen, choice, same⟩ := exists_candidate?_eq interval tie place
  rw [same] at found
  split_ifs at found with both low high
  · obtain ⟨low, high⟩ := Bool.and_eq_true_iff.mp both
    obtain rfl := Option.some.inj found
    rcases choice with rfl | rfl
    · exact low
    · exact high
  · exact Option.some.inj found ▸ low
  · exact Option.some.inj found ▸ high

theorem isSome_candidate? (fits : gridFits interval place (gridBelow interval place)) :
    (interval.candidate? tie place).isSome := by
  obtain ⟨chosen, -, same⟩ := exists_candidate?_eq interval tie place
  rw [same]
  split_ifs <;> rfl

end Grids

/-- A grid point fits a word if it rounds to it. -/
theorem gridFits_ofWord_iff (nonzero : word.magnitude ≠ 0) {digits : Nat} :
    gridFits (RoundingInterval.ofWord word) place digits ↔
      RoundsTo (Scaled.value ⟨digits, place⟩) word.magnitude := by
  rw [gridFits, admits_ofWord_iff nonzero (divisor_pos (by norm_num) _), Nat.cast_mul,
    mul_div_assoc, factor_div_divisor, Nat.cast_ofNat, Scaled.value]

/-- A candidate rounds to its word. -/
theorem roundsTo_of_candidate? (nonzero : word.magnitude ≠ 0) {digits : Nat}
    (found : (RoundingInterval.ofWord word).candidate? tie place = some digits) :
    RoundsTo (Scaled.value ⟨digits, place⟩) word.magnitude :=
  (gridFits_ofWord_iff nonzero).mp (gridFits_of_candidate? found)

/-- There is a candidate on every grid that is as fine as a quarter of the last place. -/
theorem exists_candidate? (nonzero : word.magnitude ≠ 0)
    (fine : (10 : ℚ) ^ place ≤ quarter word.magnitude) :
    ((RoundingInterval.ofWord word).candidate? tie place).isSome := by
  have common : 0 < (RoundingInterval.ofWord word).denominator := divisor_pos (by norm_num) _
  have positive := quarter_pos word.magnitude
  have middle : ((RoundingInterval.ofWord word).value / (RoundingInterval.ofWord word).denominator :
      ℚ) = 4 * significandAt word.magnitude * quarter word.magnitude := by
    have value : (RoundingInterval.ofWord word).value =
        4 * significandAt word.magnitude * factor 2 (exponentAt word.magnitude - 2) := rfl
    rw [value, denominator_ofWord, quarter_eq, Nat.cast_mul, mul_div_assoc, Nat.cast_mul,
      Nat.cast_ofNat]
  obtain ⟨below, above⟩ := @gridBelow_bounds (.ofWord word) place common
  rw [middle] at below above
  apply isSome_candidate?
  rw [gridFits_ofWord_iff nonzero]
  have above_low : lowEnd word.magnitude <
      Scaled.value ⟨gridBelow (RoundingInterval.ofWord word) place, place⟩ := by
    have near : lowEnd word.magnitude ≤
        4 * significandAt word.magnitude * quarter word.magnitude - quarter word.magnitude := by
      rw [lowEnd, ← sub_one_mul]
      apply mul_le_mul_of_nonneg_right _ positive.le
      split <;> linarith
    linarith
  have below_high : Scaled.value ⟨gridBelow (RoundingInterval.ofWord word) place, place⟩ <
      highEnd word.magnitude := by
    rw [highEnd, add_mul]
    linarith
  exact ⟨above_low.le, below_high.le, .inr ⟨above_low, below_high⟩⟩

/-- A search rounds to its word if there is a candidate on the last grid. -/
theorem roundsTo_search (nonzero : word.magnitude ≠ 0) {grids : Nat}
    (last : ((RoundingInterval.ofWord word).candidate? tie (place - grids)).isSome) :
    RoundsTo ((RoundingInterval.ofWord word).search tie (grids + 1) place).value
      word.magnitude := by
  induction grids generalizing place with
  | zero =>
      obtain ⟨digits, found⟩ := Option.isSome_iff_exists.mp last
      rw [Nat.cast_zero, sub_zero] at found
      rw [RoundingInterval.search, found]
      exact roundsTo_of_candidate? nonzero found
  | succ grids induction =>
      rw [RoundingInterval.search]
      cases found : (RoundingInterval.ofWord word).candidate? tie place with
      | some digits => exact roundsTo_of_candidate? nonzero found
      | none =>
          refine induction ?_
          rwa [Nat.cast_succ, sub_add_eq_sub_sub_swap] at last

/-- Trailing zeros do not count. -/
theorem value_normalize (fuel : Nat) (scaled : Scaled) :
    (scaled.normalize fuel).value = scaled.value := by
  induction fuel generalizing scaled with
  | zero => rfl
  | succ fuel induction =>
      rw [Scaled.normalize]
      split
      next trailing =>
        have whole : (scaled.digits : ℚ) = 10 * (scaled.digits / 10 : Nat) := by
          exact_mod_cast (Nat.mul_div_cancel' (Nat.dvd_of_mod_eq_zero trailing.1)).symm
        rw [induction, Scaled.value, Scaled.value, whole, zpow_add_one₀ (by norm_num)]
        ring
      next => rfl

/-- The last grid that is searched is as fine as a quarter of the last place, whatever number of
binary digits a word has before or behind its point. -/
theorem lastGrid_le (n : Nat) (small : n < 2100) :
    factor 10 (((n : Int) - 1074) * 30103 / 100000 - 19) * divisor 2 ((n : Int) - 1074 - 55) ≤
      factor 2 ((n : Int) - 1074 - 55) * divisor 10 (((n : Int) - 1074) * 30103 / 100000 - 19) := by
  revert n
  decide +kernel

theorem log2_significandAt_le (magnitude : Nat) : (significandAt magnitude).log2 ≤ 52 := by
  have size : binade = 4503599627370496 := rfl
  have small : significandAt magnitude < 2 ^ 53 := by
    rw [significandAt, size]
    split <;> omega
  by_cases zero : significandAt magnitude = 0
  · rw [zero]
    decide
  · exact Nat.le_of_lt_succ ((Nat.log2_lt zero).mpr small)

theorem ten_pow_le_quarter (finite : word.isFinite) :
    (10 : ℚ) ^ (leadingBound word - 20) ≤ quarter word.magnitude := by
  have size : binade = 4503599627370496 := rfl
  have below : word.magnitude < 2047 * binade := of_decide_eq_true finite
  have few := log2_significandAt_le word.magnitude
  have bound : leadingBound word - 20 = (exponentAt word.magnitude +
      (significandAt word.magnitude).log2 + 1) * 30103 / 100000 - 19 := by
    change _ * 30103 / 100000 + 1 - 20 = _
    ring_nf
    rfl
  rw [bound, quarter]
  generalize (significandAt word.magnitude).log2 = log at few
  have range : -1074 ≤ exponentAt word.magnitude ∧ exponentAt word.magnitude ≤ 971 := by
    rw [exponentAt, size]
    omega
  obtain ⟨n, position⟩ : ∃ n : Nat, (n : Int) - 1074 = exponentAt word.magnitude + log + 1 :=
    ⟨(exponentAt word.magnitude + log + 1 + 1074).toNat, by omega⟩
  have enough := lastGrid_le n (by omega)
  rw [position] at enough
  generalize (exponentAt word.magnitude + log + 1) * 30103 / 100000 - 19 = place at enough
  have powers : (10 : ℚ) ^ place ≤ 2 ^ (exponentAt word.magnitude + log + 1 - 55) := by
    have ten := factor_div_divisor 10 place
    have two := factor_div_divisor 2 (exponentAt word.magnitude + log + 1 - 55)
    rw [Nat.cast_ofNat] at ten two
    have ten_pos : (0 : ℚ) < divisor 10 place := by exact_mod_cast divisor_pos (by norm_num) _
    have two_pos : (0 : ℚ) < divisor 2 (exponentAt word.magnitude + log + 1 - 55) := by
      exact_mod_cast divisor_pos (by norm_num) _
    rw [← ten, ← two, div_le_div_iff₀ ten_pos two_pos]
    exact_mod_cast enough
  exact powers.trans (zpow_le_zpow_right₀ (by norm_num) (by omega))

/-- The shortest digits of a word round to it. -/
theorem roundsTo_shortest (finite : word.isFinite) (nonzero : word.magnitude ≠ 0) :
    RoundsTo (shortest tie word).value word.magnitude := by
  rw [shortest, value_normalize]
  apply roundsTo_search nonzero
  exact exists_candidate? nonzero (ten_pow_le_quarter finite)

end Words

end Decimal

end AuditTrail
