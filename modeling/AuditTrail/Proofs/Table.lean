import AuditTrail.Table
import Mathlib

/-!
# Looking up rows of a table

A table is determined by its look-ups: a row is found under a key exactly when it is stored and has
that key, storing a row changes the look-up of its key only, and so does erasing a key.
-/

namespace AuditTrail.Table

variable {ν κ : Type} [Ord κ] {key : ν → κ}

theorem keys_increasing (table : Table key) :
    table.keys.Pairwise fun a b => compare a b = .lt :=
  List.pairwise_map.mpr table.increasing

theorem contains_eq (table : Table key) (k : κ) :
    table.contains k = (table.find? k).isSome := by
  rw [contains, find?, List.isSome_find?]

@[simp]
theorem find?_empty (k : κ) : (empty : Table key).find? k = none := rfl

theorem place_eq_append {row : ν} {rows : List ν}
    (above : ∀ other ∈ rows, compare (key row) (key other) = .gt) :
    place key row rows = rows ++ [row] := by
  induction rows with
  | nil => rfl
  | cons head tail induction =>
      rw [place, above head List.mem_cons_self]
      simp only [List.cons_append, List.cons.injEq, true_and]
      exact induction fun other member => above other (List.mem_cons_of_mem _ member)

theorem ofList_concat [Std.TransOrd κ] (rows : List ν) (row : ν) :
    (ofList (rows ++ [row]) : Table key) = (ofList rows).put row := by
  rw [ofList, List.foldl_concat, ofList]

/-- Rows that come in increasing order are kept as they are. -/
theorem rows_ofList [Std.TransOrd κ] {rows : List ν}
    (increasing : rows.Pairwise fun a b => compare (key a) (key b) = .lt) :
    (ofList rows : Table key).rows = rows := by
  induction rows using List.reverseRecOn with
  | nil => rfl
  | append_singleton rows row induction =>
      obtain ⟨rows_increasing, -, below⟩ := List.pairwise_append.mp increasing
      have kept : place key row (ofList rows : Table key).rows = rows ++ [row] := by
        rw [induction rows_increasing]
        exact place_eq_append fun other member =>
          Std.OrientedCmp.gt_of_lt (below other member row (List.mem_singleton_self row))
      rw [ofList_concat]
      exact kept

section Keys

variable [Std.LawfulEqOrd κ]

theorem ne_of_lt {a b : κ} (less : compare a b = .lt) : a ≠ b := by
  rintro rfl
  simp [Std.ReflCmp.compare_self] at less

private instance : Std.Irrefl fun a b : κ => compare a b = .lt where
  irrefl _ less := ne_of_lt less rfl

theorem keys_nodup (table : Table key) : table.keys.Nodup :=
  table.keys_increasing.imp ne_of_lt

theorem eq_of_key_eq {table : Table key} {row other : ν} (row_mem : row ∈ table.rows)
    (other_mem : other ∈ table.rows) (keys : key row = key other) : row = other :=
  List.inj_on_of_nodup_map table.keys_nodup row_mem other_mem keys

theorem find?_eq_some_iff {table : Table key} {k : κ} {row : ν} :
    table.find? k = some row ↔ row ∈ table.rows ∧ key row = k := by
  constructor
  · intro found
    have matching := List.find?_some found
    rw [beq_iff_eq, Std.LawfulEqCmp.compare_eq_iff_eq] at matching
    exact ⟨List.mem_of_find?_eq_some found, matching⟩
  · rintro ⟨row_mem, rfl⟩
    cases found : table.find? (key row) with
    | none =>
        have absent := List.find?_eq_none.mp found row row_mem
        simp [Std.ReflCmp.compare_self] at absent
    | some other =>
        have matching := List.find?_some found
        rw [beq_iff_eq, Std.LawfulEqCmp.compare_eq_iff_eq] at matching
        rw [eq_of_key_eq (List.mem_of_find?_eq_some found) row_mem matching]

theorem key_of_find? {table : Table key} {k : κ} {row : ν} (found : table.find? k = some row) :
    key row = k :=
  (find?_eq_some_iff.mp found).2

theorem find?_key {table : Table key} {row : ν} (row_mem : row ∈ table.rows) :
    table.find? (key row) = some row :=
  find?_eq_some_iff.mpr ⟨row_mem, rfl⟩

theorem find?_eq_none_iff {table : Table key} {k : κ} :
    table.find? k = none ↔ k ∉ table.keys := by
  simp only [find?, keys, List.find?_eq_none, List.mem_map, beq_iff_eq,
    Std.LawfulEqCmp.compare_eq_iff_eq, not_exists, not_and]

theorem isSome_find?_iff {table : Table key} {k : κ} :
    (table.find? k).isSome ↔ k ∈ table.keys := by
  rw [Option.isSome_iff_ne_none, ne_eq, find?_eq_none_iff, not_not]

theorem find?_erase_self (table : Table key) (k : κ) : (table.erase k).find? k = none := by
  simp only [find?, erase, List.find?_eq_none, List.mem_filter]
  rintro row ⟨-, kept⟩
  simpa using kept

theorem find?_erase_of_ne (table : Table key) {k other : κ} (distinct : other ≠ k) :
    (table.erase k).find? other = table.find? other := by
  apply Option.ext
  intro row
  rw [find?_eq_some_iff, find?_eq_some_iff]
  simp only [erase, List.mem_filter, bne_iff_ne, ne_eq, Std.LawfulEqCmp.compare_eq_iff_eq]
  constructor
  · rintro ⟨⟨member, -⟩, keys⟩
    exact ⟨member, keys⟩
  · rintro ⟨member, rfl⟩
    exact ⟨⟨member, distinct⟩, rfl⟩

variable [Std.TransOrd κ]

private instance : Std.Antisymm fun a b : κ => compare a b = .lt where
  antisymm a b less greater := by
    have swapped := Std.OrientedCmp.gt_of_lt greater
    simp [less] at swapped

/-- Keys in strictly increasing order are determined by which ones occur. -/
theorem eq_of_increasing {left right : List κ}
    (left_increasing : left.Pairwise fun a b => compare a b = .lt)
    (right_increasing : right.Pairwise fun a b => compare a b = .lt)
    (same : ∀ k, k ∈ left ↔ k ∈ right) : left = right :=
  left_increasing.eq_of_mem_iff right_increasing fun k => same k

theorem keys_eq_of_isSome_eq {left right : Table key}
    (same : ∀ k, (left.find? k).isSome = (right.find? k).isSome) : left.keys = right.keys := by
  apply eq_of_increasing left.keys_increasing right.keys_increasing
  intro k
  rw [← isSome_find?_iff, ← isSome_find?_iff, same]

/-- Tables in which the same rows are found are equal. -/
theorem eq_of_find?_eq {left right : Table key} (same : ∀ k, left.find? k = right.find? k) :
    left = right := by
  have member (row : ν) : row ∈ left.rows ↔ row ∈ right.rows := by
    have found : left.find? (key row) = some row ↔ right.find? (key row) = some row := by rw [same]
    rw [find?_eq_some_iff, find?_eq_some_iff] at found
    simpa using found
  have antisymm : Std.Antisymm fun a b : ν => compare (key a) (key b) = .lt :=
    ⟨fun a b less greater => by simp [Std.OrientedCmp.gt_of_lt less] at greater⟩
  have irrefl : Std.Irrefl fun a b : ν => compare (key a) (key b) = .lt :=
    ⟨fun a less => by simp [Std.ReflCmp.compare_self] at less⟩
  exact ext (left.increasing.eq_of_mem_iff right.increasing fun row => member row)

theorem mem_place_iff {row other : ν} {rows : List ν}
    (increasing : rows.Pairwise fun a b => compare (key a) (key b) = .lt) :
    other ∈ place key row rows ↔ other = row ∨ (other ∈ rows ∧ key other ≠ key row) := by
  induction rows with
  | nil => simp [place]
  | cons head tail induction =>
      obtain ⟨below, tail_increasing⟩ := List.pairwise_cons.mp increasing
      unfold place
      split
      next less =>
        have others : ∀ other ∈ head :: tail, key other ≠ key row := by
          intro other member
          rcases List.mem_cons.mp member with rfl | member
          · exact (ne_of_lt less).symm
          · exact (ne_of_lt (Std.TransCmp.lt_trans less (below other member))).symm
        constructor
        · intro member
          exact (List.mem_cons.mp member).imp id fun member => ⟨member, others other member⟩
        · rintro (rfl | ⟨member, -⟩)
          · exact List.mem_cons_self
          · exact List.mem_cons_of_mem _ member
      next same =>
        have keys : key row = key head := Std.LawfulEqCmp.eq_of_compare same
        have others : ∀ other ∈ tail, key other ≠ key row := by
          intro other member
          rw [keys]
          exact (ne_of_lt (below other member)).symm
        constructor
        · intro member
          exact (List.mem_cons.mp member).imp id fun member =>
            ⟨List.mem_cons_of_mem _ member, others other member⟩
        · rintro (rfl | ⟨member, distinct⟩)
          · exact List.mem_cons_self
          · rcases List.mem_cons.mp member with rfl | member
            · exact absurd keys.symm distinct
            · exact List.mem_cons_of_mem _ member
      next greater =>
        have head_ne : key head ≠ key row :=
          ne_of_lt (Std.OrientedCmp.lt_of_gt greater)
        rw [List.mem_cons, induction tail_increasing, List.mem_cons]
        constructor
        · rintro (rfl | rfl | ⟨member, distinct⟩)
          · exact .inr ⟨.inl rfl, head_ne⟩
          · exact .inl rfl
          · exact .inr ⟨.inr member, distinct⟩
        · rintro (rfl | ⟨rfl | member, distinct⟩)
          · exact .inr (.inl rfl)
          · exact .inl rfl
          · exact .inr (.inr ⟨member, distinct⟩)

theorem mem_put_iff {table : Table key} {row other : ν} :
    other ∈ (table.put row).rows ↔
      other = row ∨ (other ∈ table.rows ∧ key other ≠ key row) :=
  mem_place_iff table.increasing

theorem find?_put_self (table : Table key) (row : ν) :
    (table.put row).find? (key row) = some row :=
  find?_key (mem_put_iff.mpr (.inl rfl))

theorem find?_put_of_ne (table : Table key) {row : ν} {k : κ} (distinct : k ≠ key row) :
    (table.put row).find? k = table.find? k := by
  apply Option.ext
  intro other
  rw [find?_eq_some_iff, find?_eq_some_iff, mem_put_iff]
  constructor
  · rintro ⟨rfl | ⟨member, -⟩, rfl⟩
    · exact absurd rfl distinct
    · exact ⟨member, rfl⟩
  · rintro ⟨member, rfl⟩
    exact ⟨.inr ⟨member, distinct⟩, rfl⟩

theorem mem_keys_put_iff {table : Table key} {row : ν} {k : κ} :
    k ∈ (table.put row).keys ↔ k = key row ∨ k ∈ table.keys := by
  rw [← isSome_find?_iff, ← isSome_find?_iff]
  by_cases same : k = key row
  · simp [same, find?_put_self]
  · simp [same, find?_put_of_ne table same]

omit [Std.TransOrd κ] in
private theorem length_place {row : ν} {rows : List ν}
    (fresh : ∀ other ∈ rows, key other ≠ key row) :
    (place key row rows).length = rows.length + 1 := by
  induction rows with
  | nil => rfl
  | cons head tail induction =>
      unfold place
      split
      next => rfl
      next same =>
        exact absurd (Std.LawfulEqCmp.eq_of_compare same).symm (fresh head List.mem_cons_self)
      next =>
        rw [List.length_cons, List.length_cons,
          induction fun other member => fresh other (List.mem_cons_of_mem _ member)]

/-- A row of a new key adds to the size. -/
theorem size_put {table : Table key} {row : ν} (fresh : key row ∉ table.keys) :
    (table.put row).size = table.size + 1 :=
  length_place fun _ member same => fresh (same ▸ List.mem_map_of_mem member)

theorem mem_keys_ofList_iff {rows : List ν} {k : κ} :
    k ∈ (ofList rows : Table key).keys ↔ k ∈ rows.map key := by
  induction rows using List.reverseRecOn with
  | nil => rfl
  | append_singleton rows row induction =>
      rw [ofList_concat, mem_keys_put_iff, induction, List.map_append, List.mem_append,
        List.map_singleton, List.mem_singleton, or_comm]

end Keys

end AuditTrail.Table
