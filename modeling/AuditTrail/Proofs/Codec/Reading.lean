import AuditTrail.Proofs.Codec.Shape
import AuditTrail.Proofs.Table
import AuditTrail.Proofs.Value.Equality
import AuditTrail.Store.Rows

/-!
# Reading written values

Numbers within their words are read back from their written forms, and so is everything that is
made of them: scalars, ids, captured values, states, commit metadata and snapshots.  What is read
of a float is its canonical form, so only the words that are not numbers become one.  That the
numeral of a finite float is read as the same float is taken for granted, zeros excepted.
-/

namespace AuditTrail

open Codec Json

namespace Binary64

theorem ofMagnitude_magnitude (word : Binary64) :
    ofMagnitude word.isNegative word.magnitude = word := by
  obtain ⟨bits⟩ := word
  have bound := bits.toNat_lt
  rw [ofMagnitude, mk.injEq, ← UInt64.toNat_inj, UInt64.toNat_ofNat']
  simp only [isNegative, magnitude, signBit]
  norm_num at bound ⊢
  split <;> omega

end Binary64

namespace Scalar

/-- Integers are words, and the numeral of a finite float is read as the float. -/
def Readable : Scalar → Prop
  | int n => -2 ^ 63 ≤ n ∧ n < 2 ^ 63
  | float word =>
    word.isFinite → word.magnitude ≠ 0 → (documentFloat.numeral word).scaled? = some word
  | bool _ | text _ => True

instance : (leaf : Scalar) → Decidable leaf.Readable
  | int n => inferInstanceAs (Decidable (-2 ^ 63 ≤ n ∧ n < 2 ^ 63))
  | float word => inferInstanceAs (Decidable (word.isFinite → word.magnitude ≠ 0 → _))
  | bool _ | text _ => inferInstanceAs (Decidable True)

/-- Zeros are read back with their signs. -/
theorem scaled?_numeral_zero {word : Binary64} (zero : word.magnitude = 0) :
    (documentFloat.numeral word).scaled? = some word := by
  have same : word = .zero word.isNegative := by
    rw [Binary64.zero, ← zero, word.ofMagnitude_magnitude]
  rw [Decimal.Layout.numeral, if_pos zero]
  conv_rhs => rw [same]
  cases word.isNegative <;> decide +kernel

/-- A float is read in its canonical form. -/
theorem readsAs_float {word : Binary64} (readable : (float word).Readable) :
    ReadsAs (fun _ => float?) (Codec.float word) word.canonical := by
  rcases lt_trichotomy word.magnitude Binary64.infiniteMagnitude with below | infinite | above
  · have finite : word.isFinite := decide_eq_true below
    have written : Codec.float word = .num (documentFloat.numeral word) := if_pos finite
    have canonical : word.canonical = word := if_neg (by simp [Binary64.isNaN, below.le])
    rw [written, canonical]
    refine ⟨legible_of_digits (documentFloat.fraction_numeral_lt word), fun _ _ => ?_⟩
    by_cases zero : word.magnitude = 0
    · exact scaled?_numeral_zero zero
    · exact readable finite zero
  · have same : word = .infinity word.isNegative := by
      rw [Binary64.infinity, ← infinite, word.ofMagnitude_magnitude]
    rw [same]
    cases word.isNegative with
    | false => exact ⟨trivial, fun _ _ => by decide +kernel⟩
    | true => exact ⟨trivial, fun _ _ => by decide +kernel⟩
  · have nan : word.isNaN := decide_eq_true above
    have written : Codec.float word = .str "NaN" := by
      rw [Codec.float, if_neg (by simp [Binary64.isFinite, above.le]), Decimal.Layout.text,
        if_pos nan]
    rw [written, Binary64.canonical, if_pos nan]
    exact ⟨trivial, fun _ _ => rfl⟩

theorem readsAs_encode {leaf : Scalar} (readable : leaf.Readable) :
    ReadsAs decode? leaf.encode leaf.canonical := by
  cases leaf with
  | bool value => exact readsAs_variant bool (readsAs_bool value) fun _ => rfl
  | int n => exact readsAs_variant int (readsAs_ofInt readable.1 readable.2) fun _ => rfl
  | float word => exact readsAs_variant float (readsAs_float readable) fun _ => rfl
  | text value => exact readsAs_variant text (readsAs_text value) fun _ => rfl

end Scalar

namespace GlobalId

/-- All the numbers that identify entities are words. -/
def Readable : GlobalId → Prop
  | entity _ localId => localId.toScalar.Readable
  | unbounded _ => True
  | owned owner _ => owner.Readable

instance decidableReadable : (id : GlobalId) → Decidable id.Readable
  | entity _ localId => inferInstanceAs (Decidable localId.toScalar.Readable)
  | unbounded _ => inferInstanceAs (Decidable True)
  | owned owner _ => decidableReadable owner

theorem readsAs_localId {localId : LocalId} (readable : localId.toScalar.Readable) :
    ReadsAs LocalId.decode? localId.encode localId := by
  cases localId with
  | int n => exact readsAs_variant LocalId.int (readsAs_ofInt readable.1 readable.2) fun _ => rfl
  | text name => exact readsAs_variant LocalId.text (readsAs_text name) fun _ => rfl

theorem readsAs_encode {id : GlobalId} (readable : id.Readable) : ReadsAs decode? id.encode id := by
  induction id with
  | entity typeName localId =>
      exact PartsReadAs.readsAs_variant
        (.text (.cons (readsAs_localId readable) .nil)) fun _ => rfl
  | unbounded typeName =>
      exact PartsReadAs.readsAs_variant (.text .nil) fun _ => rfl
  | owned owner fragment induction =>
      exact PartsReadAs.readsAs_variant
        (.cons (induction readable) (.text .nil)) fun _ => rfl

end GlobalId

namespace Value

mutual

/-- All scalars in a value, from left to right, keys before their values. -/
def leaves : Captured → List Scalar
  | null => []
  | scalar leaf => [leaf]
  | ref _ => []
  | seq items => leavesOfItems items
  | map entries => leavesOfEntries entries

/-- The scalars in the elements of a sequence. -/
def leavesOfItems : List Captured → List Scalar
  | [] => []
  | item :: rest => leaves item ++ leavesOfItems rest

/-- The scalars in the entries of a map. -/
def leavesOfEntries : List (Captured × Captured) → List Scalar
  | [] => []
  | (key, value) :: rest => leaves key ++ leaves value ++ leavesOfEntries rest

end

/-- All scalars and all ids in the value are read back. -/
def Readable (value : Captured) : Prop :=
  (∀ leaf ∈ value.leaves, leaf.Readable) ∧ ∀ id ∈ value.references, id.Readable

instance (value : Captured) : Decidable value.Readable := inferInstanceAs (Decidable (_ ∧ _))

theorem readable_seq_iff {items : List Captured} :
    (seq items : Captured).Readable ↔ ∀ item ∈ items, item.Readable := by
  induction items with
  | nil => simp [Readable, leaves, leavesOfItems, references, referencesOfItems]
  | cons item rest induction =>
      rw [List.forall_mem_cons, ← induction]
      simp only [Readable, leaves, leavesOfItems, references, referencesOfItems,
        List.forall_mem_append]
      exact and_and_and_comm

theorem readable_map_iff {entries : List (Captured × Captured)} :
    (map entries : Captured).Readable ↔ ∀ entry ∈ entries, entry.1.Readable ∧ entry.2.Readable := by
  induction entries with
  | nil => simp [Readable, leaves, leavesOfEntries, references, referencesOfEntries]
  | cons entry rest induction =>
      rw [List.forall_mem_cons, ← induction]
      simp only [Readable, leaves, leavesOfEntries, references, referencesOfEntries,
        List.forall_mem_append]
      tauto

theorem encodeItems_eq (items : List Captured) : encodeItems items = items.map encode := by
  induction items with
  | nil => rfl
  | cons item rest induction => rw [encodeItems, induction, List.map_cons]

theorem encodeEntries_eq (entries : List (Captured × Captured)) :
    encodeEntries entries = entries.map (pair encode encode) := by
  induction entries with
  | nil => rfl
  | cons entry rest induction => rw [encodeEntries, induction, List.map_cons, pair]

theorem decode?_seq (room : Nat) (items : List Json) :
    decode? (room + 1) (variant "Collection" (.arr items)) =
      (list? decode? room (.arr items)).map seq := by
  cases room <;> rfl

theorem decode?_map (room : Nat) (entries : List Json) :
    decode? (room + 1) (variant "Map" (.arr entries)) =
      (list? (pair? decode? decode?) room (.arr entries)).map map := by
  cases room with
  | zero => rfl
  | succ room =>
      cases room with
      | zero => cases entries <;> rfl
      | succ room =>
          refine congrArg (fun read : Json → Option (Captured × Captured) =>
            Option.map map (entries.mapM read)) (funext fun entry => ?_)
          cases entry with
          | arr parts => rcases parts with _ | ⟨_, _ | ⟨_, _ | ⟨_, _⟩⟩⟩ <;> rfl
          | null | bool | num | str | obj | garbled => rfl

theorem readsAs_encode {value : Captured} (readable : value.Readable) :
    ReadsAs decode? value.encode value.canonical := by
  induction value using Value.induction with
  | null => exact ⟨trivial, fun room _ => by cases room <;> rfl⟩
  | scalar leaf =>
      have leaf_reads := Scalar.readsAs_encode (readable.1 leaf (List.mem_singleton_self _))
      exact readsAs_variant scalar leaf_reads fun _ => rfl
  | ref id =>
      have id_reads := GlobalId.readsAs_encode (readable.2 id (List.mem_singleton_self _))
      exact readsAs_variant ref id_reads fun _ => rfl
  | seq items induction =>
      have items_read : ReadsAs (list? decode?) (list encode items) (items.map canonical) :=
        readsAs_list fun item member =>
          induction item member (readable_seq_iff.mp readable item member)
      rw [encode, canonical, encodeItems_eq, canonicalItems_eq]
      exact readsAs_variant seq items_read fun room => decode?_seq room _
  | map entries induction =>
      have entries_read : ReadsAs (list? (pair? decode? decode?))
          (list (pair encode encode) entries) (entries.map (Prod.map canonical canonical)) :=
        readsAs_list fun entry member =>
          have parts := readable_map_iff.mp readable entry member
          have read := induction entry member
          readsAs_pair (read.1 parts.1) (read.2 parts.2)
      rw [encode, canonical, encodeEntries_eq, canonicalEntries_eq]
      exact readsAs_variant map entries_read fun room => decode?_map room _

end Value

namespace State

/-- The state with all its values in canonical form. -/
def canonical (state : State) : State :=
  ⟨state.entries.map fun entry => (entry.1, entry.2.canonical)⟩

/-- All values are read back. -/
def Readable (state : State) : Prop := ∀ entry ∈ state.entries, entry.2.Readable

instance (state : State) : Decidable state.Readable :=
  inferInstanceAs (Decidable (∀ entry ∈ state.entries, entry.2.Readable))

theorem readsAs_encode {state : State} (readable : state.Readable) :
    ReadsAs decode? state.encode state.canonical := by
  have entries_read : ReadsAs (list? decodeEntry?) (list encodeEntry state.entries)
      (state.entries.map fun entry => (entry.1, entry.2.canonical)) :=
    readsAs_list fun entry member =>
      readsAs_pair (readsAs_text entry.1) (Value.readsAs_encode (readable entry member))
  exact PartsReadAs.readsAs_record (.cons entries_read .nil) fun _ => Option.map_eq_bind

end State

namespace CommitId

/-- The numbers are within their words. -/
def Fits (id : CommitId) : Prop := id.major < 2 ^ 64 ∧ id.minor < 2 ^ 32

instance (id : CommitId) : Decidable id.Fits :=
  inferInstanceAs (Decidable (id.major < 2 ^ 64 ∧ id.minor < 2 ^ 32))

theorem readsAs_encode {id : CommitId} (fits : id.Fits) : ReadsAs decode? id.encode id :=
  PartsReadAs.readsAs_record (.cons (readsAs_ofNat fits.1) (.cons (readsAs_ofNat fits.2) .nil))
    fun _ => rfl

end CommitId

theorem Labels.readsAs_encode (labels : Labels) : ReadsAs decode? labels.encode labels where
  plain := by
    have plain (rows : List (String × String)) :
        PlainFields (rows.map fun row => (row.1, Json.str row.2)) := by
      induction rows with
      | nil => trivial
      | cons row rows induction => exact ⟨trivial, induction⟩
    exact plain labels.rows
  reads room deep := by
    obtain ⟨inside, rfl, -⟩ := exists_room_of_obj deep
    have read : (labels.rows.map fun row => (row.1, Json.str row.2)).mapM
        (fun field => (text? field.2).map fun text => (field.1, text)) = some labels.rows := by
      induction labels.rows with
      | nil => rfl
      | cons row rows induction => rw [List.map_cons, List.mapM_cons, induction]; rfl
    change ((labels.rows.map fun row => (row.1, Json.str row.2)).mapM
      (fun field => (text? field.2).map fun text => (field.1, text))).map Table.ofList = _
    rw [read, Option.map_some, Option.some.injEq]
    exact Table.ext (Table.rows_ofList labels.increasing)

namespace CommitMetadata

/-- The numbers are within their words. -/
def Fits (metadata : CommitMetadata) : Prop :=
  metadata.id.Fits ∧ metadata.timestamp < 2 ^ 64 ∧ metadata.sequence < 2 ^ 64

instance (metadata : CommitMetadata) : Decidable metadata.Fits :=
  inferInstanceAs (Decidable (metadata.id.Fits ∧ _ ∧ _))

theorem readsAs_encode {metadata : CommitMetadata} (fits : metadata.Fits) :
    ReadsAs decode? metadata.encode metadata :=
  PartsReadAs.readsAs_record
    (.cons (CommitId.readsAs_encode fits.1)
      (.text (.cons (readsAs_ofNat fits.2.1)
        (.cons (readsAs_ofNat fits.2.2)
          (.cons (Labels.readsAs_encode metadata.properties) .nil))))) fun _ => rfl

end CommitMetadata

theorem SnapshotKind.readsAs_encode (kind : SnapshotKind) : ReadsAs decode? kind.encode kind where
  plain := trivial
  reads _ _ := by cases kind <;> rfl

namespace Snapshot

/-- The snapshot with its state in canonical form. -/
def canonical (snapshot : Snapshot) : Snapshot :=
  { snapshot with state := snapshot.state.canonical }

/-- The numbers are within their words, and id and state are read back. -/
def Readable (snapshot : Snapshot) : Prop :=
  (snapshot.id.Readable ∧ snapshot.state.Readable) ∧ snapshot.commit.Fits ∧
    snapshot.version < 2 ^ 64 ∧ ∀ id ∈ snapshot.previous, id.Fits

instance (snapshot : Snapshot) : Decidable snapshot.Readable :=
  inferInstanceAs (Decidable (_ ∧ _ ∧ _ ∧ _))

theorem readsAs_encode {snapshot : Snapshot} (readable : snapshot.Readable) :
    ReadsAs decode? snapshot.encode snapshot.canonical := by
  obtain ⟨⟨id_readable, state_readable⟩, commit_fits, version_fits, previous_fits⟩ := readable
  have changed_read : ReadsAs (list? fun _ => text?) (list .str snapshot.changed)
      snapshot.changed := by
    simpa using readsAs_list fun name (_ : name ∈ snapshot.changed) => readsAs_text name
  have previous_read : ReadsAs (optional? CommitId.decode?)
      (optional CommitId.encode snapshot.previous) snapshot.previous := by
    simpa using readsAs_optional
      (fun id member => CommitId.readsAs_encode (previous_fits id member)) fun _ _ => nofun
  exact PartsReadAs.readsAs_record
    (.cons (GlobalId.readsAs_encode id_readable)
      (.text (.cons (CommitMetadata.readsAs_encode commit_fits)
        (.cons (SnapshotKind.readsAs_encode snapshot.kind)
          (.cons (State.readsAs_encode state_readable)
            (.cons changed_read
              (.cons (readsAs_ofNat version_fits) (.cons previous_read .nil)))))))) fun _ => rfl

end Snapshot

/-- What is read from its written form is read from its payload. -/
theorem Payload.decode_encode {α : Type} {name : String} (other : name ≠ "format_version")
    {read : Nat → Json → Option α} {content : Json} {value : α}
    (reads : ReadsAs read content value) (deep : content.depth ≤ nestingLimit - 1) :
    decode name read (encode name content) = .ok value := by
  have whole : (Json.obj [("format_version", .ofNat payloadVersion), (name, content)]).Plain :=
    ⟨legible_ofInt _, reads.plain, trivial⟩
  have version : natural? 16 (.ofNat payloadVersion) = some payloadVersion := rfl
  have parts : record? nestingLimit ["format_version", name] []
      (.obj [("format_version", .ofNat payloadVersion), (name, content)]) =
        some (nestingLimit - 1, [some (.ofNat payloadVersion), some content]) := by
    simp [record?, nestingLimit, other, Ne.symm other]
  rw [decode, encode, read?_print whole]
  simp only [Option.bind_eq_bind, Option.bind_some, parts, version, reads.reads _ deep, if_true]

end AuditTrail
