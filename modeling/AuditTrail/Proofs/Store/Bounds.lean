import AuditTrail.Proofs.Store.Rows

/-!
# Bounds on columns

A bound is compared with the columns of a commit in place of its numbers.  Numbers from `2 ^ 63` on
are negative as columns, so two numbers compare as their columns do if both are on one side of
`2 ^ 63`, and the other way round if they are not.  Columns are admitted as the numbers are exactly
where the numbers that decide are on one side.
-/

namespace AuditTrail

namespace Column

/-- Both numbers are below `2 ^ 63`, or neither is. -/
def SameSide (n m : Nat) : Prop := n < 2 ^ 63 ↔ m < 2 ^ 63

instance (n m : Nat) : Decidable (SameSide n m) := inferInstanceAs (Decidable (_ ↔ _))

variable {n m : Nat}

theorem SameSide.of_lt (n_small : n < 2 ^ 63) (m_small : m < 2 ^ 63) : SameSide n m :=
  iff_of_true n_small m_small

theorem ofNat_of_ge (large : 2 ^ 63 ≤ n) (word : n < 2 ^ 64) : ofNat n = n - 2 ^ 64 := by
  unfold ofNat
  generalize words_eq : Nat.pow 2 64 = words
  obtain rfl : 2 ^ 64 = words := words_eq
  rw [Int.bmod_def]
  push_cast
  split <;> omega

/-- A column is the number itself or lies `2 ^ 64` below it. -/
theorem ofNat_eq_ite (word : n < 2 ^ 64) :
    ofNat n = if n < 2 ^ 63 then (n : Int) else n - 2 ^ 64 := by
  split
  next small => exact ofNat_of_lt small
  next large => exact ofNat_of_ge (Nat.le_of_not_lt large) word

/-- On one side columns are in the order of the numbers. -/
theorem ofNat_lt_iff (n_word : n < 2 ^ 64) (m_word : m < 2 ^ 64) (side : SameSide n m) :
    ofNat n < ofNat m ↔ n < m := by
  rw [ofNat_eq_ite n_word, ofNat_eq_ite m_word]
  unfold SameSide at side
  split <;> split <;> omega

theorem ofNat_le_iff (n_word : n < 2 ^ 64) (m_word : m < 2 ^ 64) (side : SameSide n m) :
    ofNat n ≤ ofNat m ↔ n ≤ m := by
  rw [← Int.not_lt, ofNat_lt_iff m_word n_word side.symm, Nat.not_lt]

/-- On different sides columns are in the opposite order. -/
theorem ofNat_lt_iff_gt (n_word : n < 2 ^ 64) (m_word : m < 2 ^ 64) (sides : ¬ SameSide n m) :
    ofNat n < ofNat m ↔ m < n := by
  rw [ofNat_eq_ite n_word, ofNat_eq_ite m_word]
  unfold SameSide at sides
  split <;> split <;> omega

theorem ofNat_le_iff_ge (n_word : n < 2 ^ 64) (m_word : m < 2 ^ 64) (sides : ¬ SameSide n m) :
    ofNat n ≤ ofNat m ↔ m ≤ n := by
  rw [← Int.not_lt, ofNat_lt_iff_gt m_word n_word (sides ∘ Iff.symm), Nat.not_lt]

theorem ne_of_not_sameSide (sides : ¬ SameSide n m) : n ≠ m := by
  rintro rfl
  exact sides Iff.rfl

end Column

namespace Bound

open Column

/-- The numbers of a bound fit into words. -/
def FitsWords : Bound → Prop
  | .commit id timestamp sequence _ => id.Fits ∧ timestamp < 2 ^ 64 ∧ sequence < 2 ^ 64
  | .time timestamp => timestamp < 2 ^ 64

instance : DecidablePred FitsWords
  | .commit .. => inferInstanceAs (Decidable (_ ∧ _ ∧ _))
  | .time _ => inferInstanceAs (Decidable (_ < _))

/-- Each pair of numbers that decides whether a commit lies within the bound is on one side. -/
def Comparable : Bound → CommitMetadata → Prop
  | .time timestamp, metadata => SameSide metadata.timestamp timestamp
  | .commit id _ _ .sequential, metadata => SameSide metadata.id.major id.major
  | .commit id timestamp sequence .random, metadata =>
    metadata.id = id ∨ SameSide metadata.timestamp timestamp ∧
      (metadata.timestamp = timestamp → SameSide metadata.sequence sequence)

instance : (bound : Bound) → (metadata : CommitMetadata) → Decidable (bound.Comparable metadata)
  | .time _, _ => inferInstanceAs (Decidable (SameSide _ _))
  | .commit _ _ _ .sequential, _ => inferInstanceAs (Decidable (SameSide _ _))
  | .commit _ _ _ .random, _ => inferInstanceAs (Decidable (_ ∨ _ ∧ (_ → _)))

section Reading

variable {metadata : CommitMetadata} {id : CommitId} {timestamp sequence : Nat}

theorem admits_time_iff :
    (Bound.time timestamp).admits metadata ↔ metadata.timestamp ≤ timestamp := by
  simp [admits]

theorem admitsRow_time_iff :
    (Bound.time timestamp).admitsRow (.ofMetadata metadata) ↔
      ofNat metadata.timestamp ≤ ofNat timestamp := by
  rw [admitsRow, decide_eq_true_iff, CommitRow.ofMetadata]

theorem admits_sequential_iff :
    (Bound.commit id timestamp sequence .sequential).admits metadata ↔
      metadata.id.major < id.major ∨
        metadata.id.major = id.major ∧ metadata.id.minor ≤ id.minor := by
  rw [admits, CommitId.isLE_iff]

theorem admitsRow_sequential_iff (fits : metadata.id.Fits) (id_fits : id.Fits) :
    (Bound.commit id timestamp sequence .sequential).admitsRow (.ofMetadata metadata) ↔
      ofNat metadata.id.major < ofNat id.major ∨
        metadata.id.major = id.major ∧ metadata.id.minor ≤ id.minor := by
  obtain ⟨major, minor⟩ := fits
  obtain ⟨id_major, id_minor⟩ := id_fits
  have minor_eq : ofNat metadata.id.minor = metadata.id.minor := ofNat_of_lt (by omega)
  have id_minor_eq : ofNat id.minor = id.minor := ofNat_of_lt (by omega)
  simp [admitsRow, CommitRow.ofMetadata, ofNat_inj major id_major, minor_eq, id_minor_eq]

theorem admits_random_iff :
    (Bound.commit id timestamp sequence .random).admits metadata ↔
      metadata.id = id ∨ metadata.timestamp < timestamp ∨
        metadata.timestamp = timestamp ∧ metadata.sequence ≤ sequence := by
  simp [admits, or_assoc]

theorem admitsRow_random_iff (fits : metadata.Fits) (id_fits : id.Fits)
    (timestamp_word : timestamp < 2 ^ 64) :
    (Bound.commit id timestamp sequence .random).admitsRow (.ofMetadata metadata) ↔
      metadata.id = id ∨ ofNat metadata.timestamp < ofNat timestamp ∨
        metadata.timestamp = timestamp ∧ ofNat metadata.sequence ≤ ofNat sequence := by
  have same_id := CommitRow.isOf_ofMetadata_iff fits.1 id_fits
  have same_time := ofNat_inj fits.2.1 timestamp_word
  rw [admitsRow, Bool.or_eq_true, Bool.or_eq_true, same_id, or_assoc, Bool.and_eq_true,
    decide_eq_true_iff, decide_eq_true_iff, beq_iff_eq]
  simp only [CommitRow.ofMetadata, same_time]

end Reading

variable {bound : Bound} {metadata : CommitMetadata}

/-- Columns are admitted as their numbers if the numbers that decide are on one side. -/
theorem Comparable.admitsRow_iff (comparable : bound.Comparable metadata)
    (bound_fits : bound.FitsWords) (fits : metadata.Fits) :
    bound.admitsRow (.ofMetadata metadata) ↔ bound.admits metadata := by
  cases bound with
  | time timestamp =>
      rw [admitsRow_time_iff, admits_time_iff]
      exact ofNat_le_iff fits.2.1 bound_fits comparable
  | commit id timestamp sequence scheme =>
      obtain ⟨id_fits, timestamp_word, sequence_word⟩ := bound_fits
      cases scheme with
      | sequential =>
          rw [admitsRow_sequential_iff fits.1 id_fits, admits_sequential_iff,
            ofNat_lt_iff fits.1.1 id_fits.1 comparable]
      | random =>
          rw [admitsRow_random_iff fits id_fits timestamp_word, admits_random_iff]
          rcases comparable with same_id | ⟨timestamps, sequences⟩
          · exact iff_of_true (.inl same_id) (.inl same_id)
          · refine or_congr_right (or_congr ?_ (and_congr_right fun same_time => ?_))
            · exact ofNat_lt_iff fits.2.1 timestamp_word timestamps
            · exact ofNat_le_iff fits.2.2 sequence_word (sequences same_time)

/-- If the numbers that decide are on different sides, columns are admitted when their numbers are
not. -/
theorem admitsRow_iff_not_admits (incomparable : ¬ bound.Comparable metadata)
    (bound_fits : bound.FitsWords) (fits : metadata.Fits) :
    bound.admitsRow (.ofMetadata metadata) ↔ ¬ bound.admits metadata := by
  cases bound with
  | time timestamp =>
      have different := ne_of_not_sameSide incomparable
      rw [admitsRow_time_iff, admits_time_iff, ofNat_le_iff_ge fits.2.1 bound_fits incomparable]
      omega
  | commit id timestamp sequence scheme =>
      obtain ⟨id_fits, timestamp_word, sequence_word⟩ := bound_fits
      cases scheme with
      | sequential =>
          have different := ne_of_not_sameSide incomparable
          rw [admitsRow_sequential_iff fits.1 id_fits, admits_sequential_iff,
            ofNat_lt_iff_gt fits.1.1 id_fits.1 incomparable]
          omega
      | random =>
          obtain ⟨other_id, sides⟩ := not_or.mp incomparable
          rw [admitsRow_random_iff fits id_fits timestamp_word, admits_random_iff,
            or_iff_right other_id, or_iff_right other_id]
          by_cases timestamps : SameSide metadata.timestamp timestamp
          · obtain ⟨same_time, sequences⟩ := Classical.not_imp.mp (not_and.mp sides timestamps)
            have different := ne_of_not_sameSide sequences
            rw [ofNat_lt_iff fits.2.1 timestamp_word timestamps,
              ofNat_le_iff_ge fits.2.2 sequence_word sequences]
            omega
          · have different := ne_of_not_sameSide timestamps
            rw [ofNat_lt_iff_gt fits.2.1 timestamp_word timestamps]
            omega

/-- Columns are admitted exactly as the numbers in them where, and only where, the numbers that
decide are all below `2 ^ 63` or all from there on. -/
theorem admitsRow_eq_admits_iff (bound_fits : bound.FitsWords) (fits : metadata.Fits) :
    bound.admitsRow (.ofMetadata metadata) = bound.admits metadata ↔
      bound.Comparable metadata := by
  constructor
  · intro same
    by_contra incomparable
    have opposite := admitsRow_iff_not_admits incomparable bound_fits fits
    rw [same] at opposite
    exact iff_not_self opposite
  · intro comparable
    exact Bool.eq_iff_iff.mpr (comparable.admitsRow_iff bound_fits fits)

/-- Times and sequences that are negative as columns are still told apart among themselves. -/
theorem admitsRow_eq_admits_iff_beyond :
    let bound := Bound.commit ⟨7, 0⟩ (2 ^ 64 - 1) (2 ^ 63 + 5) .random
    let metadata : CommitMetadata := ⟨⟨2 ^ 64 - 2, 0⟩, "author", 2 ^ 64 - 1, 2 ^ 63 + 6, .empty⟩
    bound.FitsWords ∧ metadata.Fits ∧ bound.Comparable metadata ∧
      bound.admitsRow (.ofMetadata metadata) = bound.admits metadata := by
  refine ⟨by decide, by decide, by decide, ?_⟩
  exact (admitsRow_eq_admits_iff (by decide) (by decide)).mpr (by decide)

/-- The greatest time bounds nothing from above, but as a column it is `-1`. -/
theorem not_admitsRow_openEnd :
    let bound := Bound.time (2 ^ 64 - 1)
    let metadata : CommitMetadata := ⟨⟨1, 0⟩, "author", 1000, 1, .empty⟩
    bound.FitsWords ∧ metadata.Fits ∧ bound.admits metadata = true ∧
      bound.admitsRow (.ofMetadata metadata) = false := by
  decide

end Bound
end AuditTrail
