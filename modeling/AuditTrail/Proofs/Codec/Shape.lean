import AuditTrail.Codec.Shape
import AuditTrail.Proofs.Json.Reading
import AuditTrail.Proofs.Value.Equality

/-!
# Reading shapes of written values

What is written in a shape is read from it wherever there is room for its nesting.  So the readers
of records, lists and pairs need only be looked at once, and each part is read on its own.
-/

namespace AuditTrail

open Codec Json

namespace Json

mutual

/-- Levels of objects and arrays in a document. -/
def depth : Json → Nat
  | null => 0
  | bool _ => 0
  | num _ => 0
  | str _ => 0
  | arr items => depthOfItems items + 1
  | obj fields => depthOfFields fields + 1
  | garbled => 0

/-- The most levels among elements. -/
def depthOfItems : List Json → Nat
  | [] => 0
  | item :: rest => max item.depth (depthOfItems rest)

/-- The most levels among fields. -/
def depthOfFields : List (String × Json) → Nat
  | [] => 0
  | (_, value) :: rest => max value.depth (depthOfFields rest)

end

theorem depthOfItems_le_iff {items : List Json} {room : Nat} :
    depthOfItems items ≤ room ↔ ∀ item ∈ items, item.depth ≤ room := by
  induction items with
  | nil => simp [depthOfItems]
  | cons item rest induction =>
      rw [depthOfItems, max_le_iff, induction, List.forall_mem_cons]

theorem depthOfFields_le_iff {fields : List (String × Json)} {room : Nat} :
    depthOfFields fields ≤ room ↔ ∀ field ∈ fields, field.2.depth ≤ room := by
  induction fields with
  | nil => simp [depthOfFields]
  | cons field rest induction =>
      rw [depthOfFields, max_le_iff, induction, List.forall_mem_cons]

variable {items : List Json} {fields : List (String × Json)} {room : Nat}

theorem depth_arr_le_iff :
    (arr items).depth ≤ room ↔ 1 ≤ room ∧ ∀ item ∈ items, item.depth ≤ room - 1 := by
  rw [depth, ← depthOfItems_le_iff]
  omega

theorem depth_obj_le_iff :
    (obj fields).depth ≤ room ↔ 1 ≤ room ∧ ∀ field ∈ fields, field.2.depth ≤ room - 1 := by
  rw [depth, ← depthOfFields_le_iff]
  omega

/-- There is room inside an array for its elements. -/
theorem exists_room_of_arr (deep : (arr items).depth ≤ room) :
    ∃ inside, room = inside + 1 ∧ ∀ item ∈ items, item.depth ≤ inside := by
  obtain ⟨enough, parts⟩ := depth_arr_le_iff.mp deep
  exact ⟨room - 1, by omega, parts⟩

/-- There is room inside an object for its parts. -/
theorem exists_room_of_obj (deep : (obj fields).depth ≤ room) :
    ∃ inside, room = inside + 1 ∧ ∀ field ∈ fields, field.2.depth ≤ inside := by
  obtain ⟨enough, parts⟩ := depth_obj_le_iff.mp deep
  exact ⟨room - 1, by omega, parts⟩

end Json

section Numbers

theorem integer?_ofInt (n : Int) : integer? (.ofInt n) = some n := by
  rcases lt_or_ge n 0 with negative | positive
  · have sign : n.natAbs ≠ 0 := by omega
    simp [integer?, ofInt, Decimal.Numeral.ofInt, Decimal.Numeral.isWhole, negative, sign,
      abs_of_neg negative]
  · simp [integer?, ofInt, Decimal.Numeral.ofInt, Decimal.Numeral.isWhole, not_lt.mpr positive,
      abs_of_nonneg positive]

theorem signed?_ofInt {n : Int} (low : -2 ^ 63 ≤ n) (high : n < 2 ^ 63) :
    signed? (.ofInt n) = some n := by
  rw [signed?, integer?_ofInt, Option.filter_some_pos]
  simpa using And.intro low high

theorem natural?_ofNat {bits n : Nat} (small : n < 2 ^ bits) :
    natural? bits (.ofNat n) = some n := by
  rw [natural?, Json.ofNat, integer?_ofInt]
  exact if_pos small

/-- A natural is read only if it has no more bits, and as itself. -/
theorem eq_of_natural? {bits n found : Nat} (read : natural? bits (.ofNat n) = some found) :
    found = n ∧ n < 2 ^ bits := by
  rw [natural?, Json.ofNat, integer?_ofInt] at read
  obtain ⟨small, same⟩ := Option.ite_none_right_eq_some.mp read
  exact ⟨(Option.some.inj same).symm, small⟩

end Numbers

section Floats

open Decimal

theorem Decimal.digits_lt {n digit : Nat} (member : digit ∈ digits n) : digit < 10 := by
  obtain ⟨c, place, rfl⟩ := List.mem_map.mp member
  obtain ⟨-, below⟩ := Char.isDigit_iff_toNat.mp (isDigit_of_mem_toDigits place)
  have zero : '0'.toNat = 48 := rfl
  have nine : '9'.toNat = 57 := rfl
  omega

theorem Decimal.Layout.padded_lt {places n digit : Nat} (member : digit ∈ padded places n) :
    digit < 10 := by
  rcases List.mem_append.mp member with filled | written
  · rw [List.eq_of_mem_replicate filled]
    norm_num
  · exact digits_lt written

/-- Whatever is chosen of two lists of digits is a list of digits. -/
theorem Decimal.digits_ite_lt {choice : Prop} [Decidable choice] {left right : List Nat}
    (left_small : ∀ digit ∈ left, digit < 10) (right_small : ∀ digit ∈ right, digit < 10) :
    ∀ digit ∈ if choice then left else right, digit < 10 := by
  split
  · exact left_small
  · exact right_small

theorem Decimal.Layout.fraction_writtenOut_lt (layout : Layout) (negative : Bool)
    (scaled : Scaled) : ∀ digit ∈ (layout.writtenOut negative scaled).fraction, digit < 10 :=
  digits_ite_lt (by simp) (digits_ite_lt (by simp) fun _ => padded_lt)

theorem Decimal.Layout.fraction_withExponent_lt (negative : Bool) (scaled : Scaled) :
    ∀ digit ∈ (withExponent negative scaled).fraction, digit < 10 :=
  digits_ite_lt (by simp) fun _ => padded_lt

/-- What stands behind the point are digits. -/
theorem Decimal.Layout.fraction_numeral_lt (layout : Layout) (word : Binary64) :
    ∀ digit ∈ (layout.numeral word).fraction, digit < 10 := by
  unfold numeral
  split
  · exact layout.fraction_writtenOut_lt _ _
  · simp only
    split
    · exact layout.fraction_writtenOut_lt _ _
    · split
      · exact layout.fraction_writtenOut_lt _ _
      · exact fraction_withExponent_lt _ _

end Floats

/-- A written form is plain, and is read as a value wherever there is room for its nesting. -/
structure ReadsAs {α : Type} (read : Nat → Json → Option α) (json : Json) (value : α) : Prop where
  /-- Nothing in the written form is garbled, and its numerals are read back. -/
  plain : json.Plain
  /-- The value is read. -/
  reads : ∀ room, json.depth ≤ room → read room json = some value

/-- The parts of a record are plain, and are read as a value wherever there is room for them. -/
structure PartsReadAs {α : Type} (read : Nat → Option α) (fields : List (String × Json))
    (value : α) : Prop where
  /-- Nothing in the parts is garbled, and their numerals are read back. -/
  plain : PlainFields fields
  /-- The value is read. -/
  reads : ∀ room, (∀ field ∈ fields, field.2.depth ≤ room) → read room = some value

section Leaves

theorem readsAs_text (text : String) : ReadsAs (fun _ => text?) (.str text) text where
  plain := trivial
  reads _ _ := rfl

theorem readsAs_bool (value : Bool) : ReadsAs (fun _ => bool?) (.bool value) value where
  plain := trivial
  reads _ _ := rfl

theorem readsAs_ofInt {n : Int} (low : -2 ^ 63 ≤ n) (high : n < 2 ^ 63) :
    ReadsAs (fun _ => signed?) (.ofInt n) n where
  plain := legible_ofInt n
  reads _ _ := signed?_ofInt low high

theorem readsAs_ofNat {bits n : Nat} (small : n < 2 ^ bits) :
    ReadsAs (fun _ => natural? bits) (.ofNat n) n where
  plain := legible_ofInt _
  reads _ _ := natural?_ofNat small

end Leaves

namespace PartsReadAs

variable {α β : Type} {name : String} {part : Json} {fields : List (String × Json)}
  {read : Nat → Option β} {decode : Nat → Json → Option β} {value : β}

/-- Without parts a record is what it is. -/
theorem nil : PartsReadAs (fun _ => some value) [] value where
  plain := trivial
  reads _ _ := rfl

/-- One part is read, and with it the others. -/
theorem cons {first : Nat → Json → Option α} {next : α → Nat → Option β} {given : α}
    (part_reads : ReadsAs first part given) (others : PartsReadAs (next given) fields value) :
    PartsReadAs (fun room => (first room part).bind fun given => next given room)
      ((name, part) :: fields) value where
  plain := ⟨part_reads.plain, others.plain⟩
  reads room deep := by
    obtain ⟨part_deep, others_deep⟩ := List.forall_mem_cons.mp deep
    rw [part_reads.reads room part_deep, Option.bind_some, others.reads room others_deep]

/-- A text is read wherever it stands. -/
theorem text {text : String} (others : PartsReadAs read fields value) :
    PartsReadAs read ((name, .str text) :: fields) value where
  plain := ⟨trivial, others.plain⟩
  reads room deep := others.reads room (List.forall_mem_cons.mp deep).2

/-- A record is read if its parts are. -/
theorem readsAs_record (parts : PartsReadAs read fields value)
    (reads : ∀ room, decode (room + 1) (.obj fields) = read room) :
    ReadsAs decode (.obj fields) value where
  plain := parts.plain
  reads room deep := by
    obtain ⟨inside, rfl, inside_deep⟩ := exists_room_of_obj deep
    rw [reads, parts.reads inside inside_deep]

/-- A variant that holds a record is read if the parts of the record are. -/
theorem readsAs_variant (parts : PartsReadAs read fields value)
    (reads : ∀ room, decode (room + 2) (variant name (.obj fields)) = read room) :
    ReadsAs decode (variant name (.obj fields)) value where
  plain := ⟨parts.plain, trivial⟩
  reads room deep := by
    obtain ⟨outside, rfl, outside_deep⟩ := exists_room_of_obj deep
    obtain ⟨inside, rfl, inside_deep⟩ := exists_room_of_obj (outside_deep _ List.mem_cons_self)
    rw [reads, parts.reads inside inside_deep]

end PartsReadAs

section Shapes

variable {α β : Type} {read : Nat → Json → Option α}

/-- A variant is read if its content is. -/
theorem readsAs_variant {name : String} {content : Json} {given : α}
    {decode : Nat → Json → Option β} (wrap : α → β) (content_reads : ReadsAs read content given)
    (reads : ∀ room, decode (room + 1) (variant name content) = (read room content).map wrap) :
    ReadsAs decode (variant name content) (wrap given) where
  plain := ⟨content_reads.plain, trivial⟩
  reads room deep := by
    obtain ⟨inside, rfl, inside_deep⟩ := exists_room_of_obj deep
    rw [reads, content_reads.reads inside (inside_deep _ List.mem_cons_self), Option.map_some]

theorem mapM_encode {read : Json → Option β} {write : α → Json} {value : α → β} {items : List α}
    (reads : ∀ item ∈ items, read (write item) = some (value item)) :
    (items.map write).mapM read = some (items.map value) := by
  induction items with
  | nil => rfl
  | cons item items induction =>
      obtain ⟨first, others⟩ := List.forall_mem_cons.mp reads
      rw [List.map_cons, List.mapM_cons, first, induction others]
      rfl

theorem plainItems_map {write : α → Json} {items : List α}
    (plain : ∀ item ∈ items, (write item).Plain) : PlainItems (items.map write) := by
  induction items with
  | nil => trivial
  | cons item items induction =>
      obtain ⟨first, others⟩ := List.forall_mem_cons.mp plain
      exact ⟨first, induction others⟩

/-- A list is read if its elements are. -/
theorem readsAs_list {write : α → Json} {value : α → α} {items : List α}
    (elements : ∀ item ∈ items, ReadsAs read (write item) (value item)) :
    ReadsAs (list? read) (list write items) (items.map value) where
  plain := plainItems_map fun item member => (elements item member).plain
  reads room deep := by
    obtain ⟨inside, rfl, parts⟩ := exists_room_of_arr deep
    exact mapM_encode fun item member =>
      (elements item member).reads inside (parts _ (List.mem_map_of_mem member))

/-- A pair is read if its elements are. -/
theorem readsAs_pair {other : Nat → Json → Option β} {first : α → Json} {second : β → Json}
    {items : α × β} {left : α} {right : β} (first_reads : ReadsAs read (first items.1) left)
    (second_reads : ReadsAs other (second items.2) right) :
    ReadsAs (pair? read other) (pair first second items) (left, right) where
  plain := ⟨first_reads.plain, second_reads.plain, trivial⟩
  reads room deep := by
    obtain ⟨inside, rfl, parts⟩ := exists_room_of_arr deep
    obtain ⟨left_deep, right_deep, -⟩ := by simpa only [List.forall_mem_cons] using parts
    change (read inside (first items.1)).bind (fun a =>
      (other inside (second items.2)).bind fun b => some (a, b)) = _
    rw [first_reads.reads inside left_deep, second_reads.reads inside right_deep]
    rfl

/-- What may be missing is read, if what is written for something is not null. -/
theorem readsAs_optional {write : α → Json} {value : α → α} {item? : Option α}
    (there : ∀ item ∈ item?, ReadsAs read (write item) (value item))
    (filled : ∀ item ∈ item?, write item ≠ .null) :
    ReadsAs (optional? read) (optional write item?) (item?.map value) := by
  cases item? with
  | none => exact ⟨trivial, fun _ _ => rfl⟩
  | some item =>
      have item_reads := there item rfl
      refine ⟨item_reads.plain, fun room deep => ?_⟩
      have written : optional? read room (write item) = (read room (write item)).map some := by
        rw [optional?.eq_def]
        split
        · next null => exact absurd null (filled item rfl)
        · rfl
      change optional? read room (write item) = _
      rw [written, item_reads.reads room deep]
      rfl

end Shapes

end AuditTrail
