import AuditTrail.Diff
import AuditTrail.Proofs.Edit.Script

/-!
# Equality of changes

Changes are equal when all their parts are, and so are edits, deltas and diffs.  Each of them has a
canonical form, with all its values in canonical form, and is equal to it.
-/

namespace AuditTrail

/-- The edit with its elements in canonical form. -/
def Edit.canonical : Edit → Edit
  | insert index value => insert index value.canonical
  | remove index value => remove index value.canonical
  | replace index old new => replace index old.canonical new.canonical

theorem Edit.canonical_beq (edit : Edit) : edit.canonical == edit := by
  cases edit with
  | insert | remove | replace =>
      change same _ _ = true
      simp [canonical, same, Value.canonical_beq]

namespace EntryChange

theorem beq_iff {left right : EntryChange} :
    left == right ↔ left.key == right.key ∧ left.old == right.old ∧ left.new == right.new := by
  change left.same right = true ↔ _
  rw [same, Bool.and_eq_true, Bool.and_eq_true, and_assoc]

instance : ReflBEq EntryChange := ⟨beq_iff.mpr ⟨BEq.rfl, BEq.rfl, BEq.rfl⟩⟩

/-- The entry change with its parts in canonical form. -/
def canonical (change : EntryChange) : EntryChange :=
  ⟨change.key.canonical, change.old.canonical, change.new.canonical⟩

theorem canonical_beq (change : EntryChange) : change.canonical == change :=
  beq_iff.mpr
    ⟨change.key.canonical_beq, change.old.canonical_beq, change.new.canonical_beq⟩

end EntryChange

namespace Delta

theorem beq_self (delta : Delta) : delta == delta := by
  change delta.same delta = true
  cases delta <;> simp [same]

instance : ReflBEq Delta := ⟨beq_self _⟩

/-- The delta with its values in canonical form. -/
def canonical : Delta → Delta
  | value old new oldText newText => value old.canonical new.canonical oldText newText
  | reference old new => reference old new
  | list edits => list (edits.map Edit.canonical)
  | array edits => array (edits.map Edit.canonical)
  | set added gone => set (added.map Value.canonical) (gone.map Value.canonical)
  | map added gone changed =>
    map (added.map (Prod.map Value.canonical Value.canonical))
      (gone.map (Prod.map Value.canonical Value.canonical)) (changed.map EntryChange.canonical)

theorem canonical_beq (delta : Delta) : delta.canonical == delta := by
  have edits_beq (edits : List Edit) : edits.map Edit.canonical == edits :=
    map_beq fun edit _ => edit.canonical_beq
  have items_beq (items : List Captured) : items.map Value.canonical == items :=
    map_beq fun item _ => item.canonical_beq
  have entries_beq (entries : List (Captured × Captured)) :
      entries.map (Prod.map Value.canonical Value.canonical) == entries :=
    map_beq fun entry _ => Bool.and_eq_true_iff.mpr
      ⟨entry.1.canonical_beq, entry.2.canonical_beq⟩
  have changed_beq (changed : List EntryChange) : changed.map EntryChange.canonical == changed :=
    map_beq fun change _ => change.canonical_beq
  change delta.canonical.same delta = true
  cases delta <;> simp [canonical, same, Value.canonical_beq, edits_beq, items_beq, entries_beq,
    changed_beq]

end Delta

namespace Change

/-- What happened, with its values in canonical form. -/
def Kind.canonical : Kind → Kind
  | created => created
  | removed => removed
  | property name delta => property name delta.canonical

theorem Kind.canonical_beq (kind : Kind) : kind.canonical == kind := by
  change kind.canonical.same kind = true
  cases kind <;> simp [canonical, same, Delta.canonical_beq]

theorem beq_mk {id : GlobalId} {typeName : String} {left right : Change.Kind}
    (kinds : left == right) : (⟨id, typeName, left⟩ : Change) == ⟨id, typeName, right⟩ := by
  change same _ _ = true
  simp only [same, BEq.rfl, kinds, Bool.and_self]

/-- The change with its values in canonical form. -/
def canonical (change : Change) : Change := { change with kind := change.kind.canonical }

theorem canonical_beq (change : Change) : change.canonical == change :=
  beq_mk change.kind.canonical_beq

end Change

/-- The diff with all its values in canonical form. -/
def Diff.canonical (diff : Diff) : Diff := ⟨diff.changes.map Change.canonical⟩

theorem Diff.canonical_beq (diff : Diff) : diff.canonical == diff := by
  have equal : diff.changes.map Change.canonical == diff.changes :=
    map_beq fun change _ => change.canonical_beq
  exact equal

end AuditTrail
