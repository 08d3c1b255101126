import AuditTrail.Proofs.Codec.Reading

/-!
# Room for nesting

What has no floats, numbers within their words and no more nesting than there is room for is read
back as it is.  Each part needs the room that is left inside what holds it.
-/

namespace AuditTrail

open Codec Json

/-- A variant is nested once more than its content. -/
theorem Json.depth_variant (name : String) (content : Json) :
    (variant name content).depth = content.depth + 1 := by
  simp [variant, depth, depthOfFields]

namespace Scalar

/-- The written form is read with so much room for nesting. -/
def FitsIn (room : Nat) : Scalar → Prop
  | int n => 1 ≤ room ∧ -2 ^ 63 ≤ n ∧ n < 2 ^ 63
  | float _ => False
  | bool _ | text _ => 1 ≤ room

instance (room : Nat) : (leaf : Scalar) → Decidable (leaf.FitsIn room)
  | int n => inferInstanceAs (Decidable (1 ≤ room ∧ -2 ^ 63 ≤ n ∧ n < 2 ^ 63))
  | float _ => inferInstanceAs (Decidable False)
  | bool _ | text _ => inferInstanceAs (Decidable (1 ≤ room))

theorem depth_encode (leaf : Scalar) : leaf.encode.depth ≤ 1 := by
  cases leaf with
  | float word => rw [encode, depth_variant, Codec.float]; split <;> exact le_rfl
  | bool | int | text => exact le_rfl

theorem of_fitsIn {leaf : Scalar} {room : Nat} (fits : leaf.FitsIn room) :
    leaf.Readable ∧ leaf.canonical = leaf ∧ leaf.encode.depth ≤ room := by
  cases leaf with
  | bool value => exact ⟨trivial, rfl, fits⟩
  | int n => exact ⟨fits.2, rfl, fits.1⟩
  | float => exact fits.elim
  | text value => exact ⟨trivial, rfl, fits⟩

end Scalar

namespace GlobalId

/-- The written form is read with so much room for nesting. -/
def FitsIn (room : Nat) : GlobalId → Prop
  | entity _ localId => 3 ≤ room ∧ localId.toScalar.FitsIn 1
  | unbounded _ => 2 ≤ room
  | owned owner _ => 2 ≤ room ∧ owner.FitsIn (room - 2)

instance decidableFitsIn (room : Nat) : (id : GlobalId) → Decidable (id.FitsIn room)
  | entity _ localId => inferInstanceAs (Decidable (3 ≤ room ∧ localId.toScalar.FitsIn 1))
  | unbounded _ => inferInstanceAs (Decidable (2 ≤ room))
  | owned owner _ =>
    have := decidableFitsIn (room - 2) owner
    inferInstanceAs (Decidable (2 ≤ room ∧ owner.FitsIn (room - 2)))

theorem of_fitsIn {id : GlobalId} {room : Nat} (fits : id.FitsIn room) :
    id.Readable ∧ id.encode.depth ≤ room := by
  induction id generalizing room with
  | entity typeName localId =>
      have deep : localId.encode.depth ≤ 1 := by cases localId <;> exact le_rfl
      refine ⟨(Scalar.of_fitsIn fits.2).1, ?_⟩
      simp only [encode, depth_variant, depth, depthOfFields]
      have enough : 3 ≤ room := fits.1
      omega
  | unbounded typeName => exact ⟨trivial, fits⟩
  | owned owner fragment induction =>
      obtain ⟨readable, deep⟩ := induction fits.2
      refine ⟨readable, ?_⟩
      simp only [encode, depth_variant, depth, depthOfFields]
      have enough : 2 ≤ room := fits.1
      omega

end GlobalId

namespace Value

mutual

/-- The written form is read with so much room for nesting. -/
def FitsIn (room : Nat) : Captured → Prop
  | null => True
  | scalar leaf => 1 ≤ room ∧ leaf.FitsIn (room - 1)
  | ref id => 1 ≤ room ∧ id.FitsIn (room - 1)
  | seq items => 2 ≤ room ∧ ItemsFitIn (room - 2) items
  | map entries => 3 ≤ room ∧ EntriesFitIn (room - 3) entries

/-- All elements are read with so much room. -/
def ItemsFitIn (room : Nat) : List Captured → Prop
  | [] => True
  | item :: rest => FitsIn room item ∧ ItemsFitIn room rest

/-- All keys and values are read with so much room. -/
def EntriesFitIn (room : Nat) : List (Captured × Captured) → Prop
  | [] => True
  | (key, value) :: rest => (FitsIn room key ∧ FitsIn room value) ∧ EntriesFitIn room rest

end

mutual

instance decidableFitsIn (room : Nat) : (value : Captured) → Decidable (FitsIn room value)
  | null => inferInstanceAs (Decidable True)
  | scalar leaf => inferInstanceAs (Decidable (1 ≤ room ∧ leaf.FitsIn (room - 1)))
  | ref id => inferInstanceAs (Decidable (1 ≤ room ∧ id.FitsIn (room - 1)))
  | seq items =>
    have := decidableItemsFitIn (room - 2) items
    inferInstanceAs (Decidable (2 ≤ room ∧ ItemsFitIn (room - 2) items))
  | map entries =>
    have := decidableEntriesFitIn (room - 3) entries
    inferInstanceAs (Decidable (3 ≤ room ∧ EntriesFitIn (room - 3) entries))

instance decidableItemsFitIn (room : Nat) :
    (items : List Captured) → Decidable (ItemsFitIn room items)
  | [] => inferInstanceAs (Decidable True)
  | item :: rest =>
    have := decidableFitsIn room item
    have := decidableItemsFitIn room rest
    inferInstanceAs (Decidable (FitsIn room item ∧ ItemsFitIn room rest))

instance decidableEntriesFitIn (room : Nat) :
    (entries : List (Captured × Captured)) → Decidable (EntriesFitIn room entries)
  | [] => inferInstanceAs (Decidable True)
  | (key, value) :: rest =>
    have := decidableFitsIn room key
    have := decidableFitsIn room value
    have := decidableEntriesFitIn room rest
    inferInstanceAs (Decidable ((FitsIn room key ∧ FitsIn room value) ∧ EntriesFitIn room rest))

end

theorem itemsFitIn_iff {items : List Captured} {room : Nat} :
    ItemsFitIn room items ↔ ∀ item ∈ items, FitsIn room item := by
  induction items with
  | nil => simp [ItemsFitIn]
  | cons item rest induction => rw [ItemsFitIn, induction, List.forall_mem_cons]

theorem entriesFitIn_iff {entries : List (Captured × Captured)} {room : Nat} :
    EntriesFitIn room entries ↔ ∀ entry ∈ entries, FitsIn room entry.1 ∧ FitsIn room entry.2 := by
  induction entries with
  | nil => simp [EntriesFitIn]
  | cons entry rest induction => rw [EntriesFitIn, induction, List.forall_mem_cons]

variable {items : List Captured} {entries : List (Captured × Captured)} {room : Nat}

theorem canonical_seq_eq (same : ∀ item ∈ items, item.canonical = item) :
    (seq items : Captured).canonical = seq items := by
  rw [canonical, canonicalItems_eq, List.map_congr_left same, List.map_id']

theorem canonical_map_eq (same : ∀ entry ∈ entries,
    entry.1.canonical = entry.1 ∧ entry.2.canonical = entry.2) :
    (map entries : Captured).canonical = map entries := by
  rw [canonical, canonicalEntries_eq, List.map_congr_left fun entry member =>
    Prod.ext (same entry member).1 (same entry member).2, List.map_id']

/-- A sequence is nested twice more than its elements. -/
theorem depth_encode_seq_le (deep : ∀ item ∈ items, item.encode.depth ≤ room) :
    (seq items : Captured).encode.depth ≤ room + 2 := by
  have inside : depthOfItems (encodeItems items) ≤ room := by
    rw [encodeItems_eq, depthOfItems_le_iff, List.forall_mem_map]
    exact deep
  rw [encode, depth_variant, depth]
  omega

/-- A map is nested three times more than its keys and values. -/
theorem depth_encode_map_le (deep : ∀ entry ∈ entries,
    entry.1.encode.depth ≤ room ∧ entry.2.encode.depth ≤ room) :
    (map entries : Captured).encode.depth ≤ room + 3 := by
  have inside : depthOfItems (encodeEntries entries) ≤ room + 1 := by
    rw [encodeEntries_eq, depthOfItems_le_iff, List.forall_mem_map]
    intro entry member
    obtain ⟨key_deep, value_deep⟩ := deep entry member
    simp only [pair, depth, depthOfItems]
    omega
  rw [encode, depth_variant, depth]
  omega

theorem of_fitsIn {value : Captured} (fits : FitsIn room value) :
    value.Readable ∧ value.canonical = value ∧ value.encode.depth ≤ room := by
  induction value using Value.induction generalizing room with
  | null => exact ⟨by decide, rfl, Nat.zero_le _⟩
  | scalar leaf =>
      obtain ⟨enough, leaf_fits⟩ := fits
      obtain ⟨room, rfl⟩ := Nat.exists_eq_add_of_le' enough
      obtain ⟨readable, canonical, deep⟩ := Scalar.of_fitsIn leaf_fits
      refine ⟨⟨List.forall_mem_singleton.mpr readable, List.forall_mem_nil _⟩,
        congrArg scalar canonical, ?_⟩
      rw [encode, depth_variant]
      exact Nat.succ_le_succ deep
  | ref id =>
      obtain ⟨enough, id_fits⟩ := fits
      obtain ⟨room, rfl⟩ := Nat.exists_eq_add_of_le' enough
      obtain ⟨readable, deep⟩ := GlobalId.of_fitsIn id_fits
      refine ⟨⟨List.forall_mem_nil _, List.forall_mem_singleton.mpr readable⟩, rfl, ?_⟩
      rw [encode, depth_variant]
      exact Nat.succ_le_succ deep
  | seq items induction =>
      obtain ⟨enough, items_fit⟩ := fits
      obtain ⟨room, rfl⟩ := Nat.exists_eq_add_of_le' enough
      have parts := fun item member =>
        induction item member (itemsFitIn_iff.mp items_fit item member)
      exact ⟨readable_seq_iff.mpr fun item member => (parts item member).1,
        canonical_seq_eq fun item member => (parts item member).2.1,
        depth_encode_seq_le fun item member => (parts item member).2.2⟩
  | map entries induction =>
      obtain ⟨enough, entries_fit⟩ := fits
      obtain ⟨room, rfl⟩ := Nat.exists_eq_add_of_le' enough
      have fit := entriesFitIn_iff.mp entries_fit
      have keys := fun entry member => (induction entry member).1 (fit entry member).1
      have values := fun entry member => (induction entry member).2 (fit entry member).2
      exact ⟨readable_map_iff.mpr fun entry member =>
          ⟨(keys entry member).1, (values entry member).1⟩,
        canonical_map_eq fun entry member => ⟨(keys entry member).2.1, (values entry member).2.1⟩,
        depth_encode_map_le fun entry member =>
          ⟨(keys entry member).2.2, (values entry member).2.2⟩⟩

end Value

namespace State

/-- The written form is read with so much room for nesting. -/
def FitsIn (room : Nat) (state : State) : Prop :=
  3 ≤ room ∧ ∀ entry ∈ state.entries, entry.2.FitsIn (room - 3)

instance (room : Nat) (state : State) : Decidable (state.FitsIn room) :=
  inferInstanceAs (Decidable (3 ≤ room ∧ ∀ entry ∈ state.entries, entry.2.FitsIn (room - 3)))

theorem of_fitsIn {state : State} {room : Nat} (fits : state.FitsIn room) :
    state.Readable ∧ state.canonical = state ∧ state.encode.depth ≤ room := by
  obtain ⟨enough, fit⟩ := fits
  have parts := fun entry member => Value.of_fitsIn (fit entry member)
  refine ⟨fun entry member => (parts entry member).1, ?_, ?_⟩
  · have same : state.entries.map (fun entry => (entry.1, entry.2.canonical)) =
        state.entries.map id :=
      List.map_congr_left fun entry member => Prod.ext rfl (parts entry member).2.1
    rw [canonical, same, List.map_id]
  · have inside : depthOfItems (state.entries.map encodeEntry) ≤ room - 2 := by
      rw [depthOfItems_le_iff, List.forall_mem_map]
      intro entry member
      have deep := (parts entry member).2.2
      simp only [encodeEntry, pair, depth, depthOfItems]
      omega
    simp only [encode, list, depth, depthOfFields]
    omega

end State

theorem CommitId.depth_encode (id : CommitId) : id.encode.depth = 1 := by
  simp [encode, depth, depthOfFields, ofNat, ofInt]

theorem Labels.depth_encode (labels : Labels) : labels.encode.depth = 1 := by
  have texts : depthOfFields (labels.rows.map fun row => (row.1, Json.str row.2)) ≤ 0 :=
    depthOfFields_le_iff.mpr (List.forall_mem_map.mpr fun _ _ => le_rfl)
  simp only [encode, depth]
  omega

theorem CommitMetadata.depth_encode (metadata : CommitMetadata) : metadata.encode.depth = 2 := by
  simp [encode, depth, depthOfFields, ofNat, ofInt, CommitId.depth_encode, Labels.depth_encode]

namespace Snapshot

/-- The numbers are within their words, and id and state are read with so much room for nesting. -/
def FitsIn (room : Nat) (snapshot : Snapshot) : Prop :=
  (3 ≤ room ∧ snapshot.id.FitsIn (room - 1) ∧ snapshot.state.FitsIn (room - 1)) ∧
    snapshot.commit.Fits ∧ snapshot.version < 2 ^ 64 ∧ ∀ id ∈ snapshot.previous, id.Fits

instance (room : Nat) (snapshot : Snapshot) : Decidable (snapshot.FitsIn room) :=
  inferInstanceAs (Decidable (_ ∧ _ ∧ _ ∧ _))

theorem readsAs_of_fitsIn {snapshot : Snapshot} {room : Nat} (fits : snapshot.FitsIn room) :
    ReadsAs decode? snapshot.encode snapshot ∧ snapshot.encode.depth ≤ room := by
  obtain ⟨⟨enough, id_fits, state_fits⟩, commit_fits, version_fits, previous_fits⟩ := fits
  obtain ⟨id_readable, id_deep⟩ := GlobalId.of_fitsIn id_fits
  obtain ⟨state_readable, state_canonical, state_deep⟩ := State.of_fitsIn state_fits
  have readable : snapshot.Readable :=
    ⟨⟨id_readable, state_readable⟩, commit_fits, version_fits, previous_fits⟩
  have same : snapshot.canonical = snapshot := by rw [canonical, state_canonical]
  have deep : snapshot.encode.depth ≤ room := by
    have changed_deep : depthOfItems (snapshot.changed.map Json.str) ≤ 0 :=
      depthOfItems_le_iff.mpr (List.forall_mem_map.mpr fun _ _ => le_rfl)
    have previous_deep : (optional CommitId.encode snapshot.previous).depth ≤ 1 := by
      cases snapshot.previous with
      | none => exact Nat.zero_le _
      | some id => exact id.depth_encode.le
    simp only [encode, SnapshotKind.encode, list, ofNat, ofInt, depth, depthOfFields,
      CommitMetadata.depth_encode]
    omega
  have reads := readsAs_encode readable
  rw [same] at reads
  exact ⟨reads, deep⟩

end Snapshot
end AuditTrail
