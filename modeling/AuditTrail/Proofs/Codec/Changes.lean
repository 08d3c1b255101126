import AuditTrail.Codec.Change
import AuditTrail.Proofs.Codec.Reading
import AuditTrail.Proofs.Diff.Equality

/-!
# Reading written changes

Edits, changes and diffs are read back from their written forms if their positions are words and
all their values and ids are read back.
-/

namespace AuditTrail

open Codec Json

namespace Value

/-- All keys and all values are read back. -/
def EntriesReadable (entries : List (Captured × Captured)) : Prop :=
  ∀ entry ∈ entries, entry.1.Readable ∧ entry.2.Readable

instance (entries : List (Captured × Captured)) : Decidable (EntriesReadable entries) :=
  inferInstanceAs (Decidable (∀ entry ∈ entries, entry.1.Readable ∧ entry.2.Readable))

theorem readsAs_values {items : List Captured} (readable : ∀ item ∈ items, item.Readable) :
    ReadsAs (list? decode?) (list encode items) (items.map canonical) :=
  readsAs_list fun item member => readsAs_encode (readable item member)

theorem readsAs_entries {entries : List (Captured × Captured)}
    (readable : EntriesReadable entries) :
    ReadsAs (list? (pair? decode? decode?)) (list (pair encode encode) entries)
      (entries.map (Prod.map canonical canonical)) :=
  readsAs_list fun entry member =>
    have parts := readable entry member
    readsAs_pair (readsAs_encode parts.1) (readsAs_encode parts.2)

end Value

namespace Edit

/-- The position is a word, and the elements are read back. -/
def Readable : Edit → Prop
  | insert index value | remove index value => index < 2 ^ 64 ∧ value.Readable
  | replace index old new => index < 2 ^ 64 ∧ old.Readable ∧ new.Readable

instance : (edit : Edit) → Decidable edit.Readable
  | insert index value | remove index value =>
    inferInstanceAs (Decidable (index < 2 ^ 64 ∧ value.Readable))
  | replace index old new =>
    inferInstanceAs (Decidable (index < 2 ^ 64 ∧ old.Readable ∧ new.Readable))

theorem readsAs_element {index : Nat} {value : Captured} (word : index < 2 ^ 64)
    (readable : value.Readable) :
    ReadsAs decodeElement? (.obj [("index", .ofNat index), ("value", value.encode)])
      (index, value.canonical) :=
  PartsReadAs.readsAs_record
    (.cons (readsAs_ofNat word) (.cons (Value.readsAs_encode readable) .nil)) fun _ => rfl

theorem readsAs_encode {edit : Edit} (readable : edit.Readable) :
    ReadsAs decode? edit.encode edit.canonical := by
  cases edit with
  | insert index value =>
      exact readsAs_variant (fun element : Nat × Captured => insert element.1 element.2)
        (readsAs_element readable.1 readable.2) fun _ => rfl
  | remove index value =>
      exact readsAs_variant (fun element : Nat × Captured => remove element.1 element.2)
        (readsAs_element readable.1 readable.2) fun _ => rfl
  | replace index old new =>
      exact PartsReadAs.readsAs_variant
        (.cons (readsAs_ofNat readable.1)
          (.cons (Value.readsAs_encode readable.2.1)
            (.cons (Value.readsAs_encode readable.2.2) .nil))) fun _ => rfl

end Edit

namespace EntryChange

/-- Key and values are read back. -/
def Readable (change : EntryChange) : Prop :=
  change.key.Readable ∧ change.old.Readable ∧ change.new.Readable

instance (change : EntryChange) : Decidable change.Readable :=
  inferInstanceAs (Decidable (_ ∧ _ ∧ _))

theorem readsAs_encode {change : EntryChange} (readable : change.Readable) :
    ReadsAs decode? change.encode change.canonical :=
  PartsReadAs.readsAs_record
    (.cons (Value.readsAs_encode readable.1)
      (.cons (Value.readsAs_encode readable.2.1)
        (.cons (Value.readsAs_encode readable.2.2) .nil))) fun _ => rfl

end EntryChange

namespace Delta

/-- All its parts are read back. -/
def Readable : Delta → Prop
  | value old new _ _ => old.Readable ∧ new.Readable
  | reference old new => (∀ id ∈ old, id.Readable) ∧ ∀ id ∈ new, id.Readable
  | list edits | array edits => ∀ edit ∈ edits, edit.Readable
  | set added gone => (∀ item ∈ added, item.Readable) ∧ ∀ item ∈ gone, item.Readable
  | map added gone changed =>
    Value.EntriesReadable added ∧ Value.EntriesReadable gone ∧ ∀ change ∈ changed, change.Readable

instance : (delta : Delta) → Decidable delta.Readable
  | value old new _ _ => inferInstanceAs (Decidable (old.Readable ∧ new.Readable))
  | reference old new =>
    inferInstanceAs (Decidable ((∀ id ∈ old, id.Readable) ∧ ∀ id ∈ new, id.Readable))
  | list edits | array edits => inferInstanceAs (Decidable (∀ edit ∈ edits, edit.Readable))
  | set added gone =>
    inferInstanceAs
      (Decidable ((∀ item ∈ added, item.Readable) ∧ ∀ item ∈ gone, item.Readable))
  | map added gone changed =>
    inferInstanceAs (Decidable (Value.EntriesReadable added ∧ Value.EntriesReadable gone ∧
      ∀ change ∈ changed, change.Readable))

end Delta

namespace Change

namespace Kind

/-- All its parts are read back. -/
def Readable : Kind → Prop
  | created | removed => True
  | property _ delta => delta.Readable

instance : (kind : Kind) → Decidable kind.Readable
  | created | removed => inferInstanceAs (Decidable True)
  | property _ delta => inferInstanceAs (Decidable delta.Readable)

theorem readsAs_target {id? : Option GlobalId} (readable : ∀ id ∈ id?, id.Readable) :
    ReadsAs (optional? GlobalId.decode?) (optional GlobalId.encode id?) id? := by
  have filled (id : GlobalId) : id.encode ≠ .null := by cases id <;> nofun
  simpa using readsAs_optional (fun id member => GlobalId.readsAs_encode (readable id member))
    fun id _ => filled id

theorem readsAs_edits {edits : List Edit} (readable : ∀ edit ∈ edits, edit.Readable) :
    ReadsAs (list? Edit.decode?) (list Edit.encode edits) (edits.map Edit.canonical) :=
  readsAs_list fun edit member => Edit.readsAs_encode (readable edit member)

theorem readsAs_encode {kind : Kind} (readable : kind.Readable) :
    ReadsAs decode? kind.encode kind.canonical := by
  cases kind with
  | created => exact ⟨trivial, fun _ _ => rfl⟩
  | removed => exact ⟨trivial, fun _ _ => rfl⟩
  | property name delta =>
      cases delta with
      | value old new oldText newText =>
          exact PartsReadAs.readsAs_variant
            (.text (.cons (Value.readsAs_encode readable.1)
              (.cons (Value.readsAs_encode readable.2) (.text (.text .nil))))) fun _ => rfl
      | reference old new =>
          exact PartsReadAs.readsAs_variant
            (.text (.cons (readsAs_target readable.1)
              (.cons (readsAs_target readable.2) .nil))) fun _ => rfl
      | list edits =>
          exact PartsReadAs.readsAs_variant (.text (.cons (readsAs_edits readable) .nil))
            fun _ => rfl
      | array edits =>
          exact PartsReadAs.readsAs_variant (.text (.cons (readsAs_edits readable) .nil))
            fun _ => rfl
      | set added gone =>
          exact PartsReadAs.readsAs_variant
            (.text (.cons (Value.readsAs_values readable.1)
              (.cons (Value.readsAs_values readable.2) .nil))) fun _ => rfl
      | map added gone changed =>
          have changed_read := readsAs_list fun change member =>
            EntryChange.readsAs_encode (readable.2.2 change member)
          exact PartsReadAs.readsAs_variant
            (.text (.cons (Value.readsAs_entries readable.1)
              (.cons (Value.readsAs_entries readable.2.1)
                (.cons changed_read .nil)))) fun _ => rfl

end Kind

/-- Node and kind are read back. -/
def Readable (change : Change) : Prop := change.target.Readable ∧ change.kind.Readable

instance (change : Change) : Decidable change.Readable := inferInstanceAs (Decidable (_ ∧ _))

theorem readsAs_encode {change : Change} (readable : change.Readable) :
    ReadsAs decode? change.encode change.canonical :=
  PartsReadAs.readsAs_record
    (.cons (GlobalId.readsAs_encode readable.1)
      (.text (.cons (Kind.readsAs_encode readable.2) .nil))) fun _ => rfl

end Change

namespace Diff

/-- All changes are read back. -/
def Readable (diff : Diff) : Prop := ∀ change ∈ diff.changes, change.Readable

instance (diff : Diff) : Decidable diff.Readable :=
  inferInstanceAs (Decidable (∀ change ∈ diff.changes, change.Readable))

theorem readsAs_encode {diff : Diff} (readable : diff.Readable) :
    ReadsAs decode? diff.encode diff.canonical := by
  have changes_read := readsAs_list fun change member =>
    Change.readsAs_encode (readable change member)
  exact PartsReadAs.readsAs_record (.cons changes_read .nil) fun _ => Option.map_eq_bind

end Diff
end AuditTrail
