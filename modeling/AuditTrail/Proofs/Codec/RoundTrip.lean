import AuditTrail.Proofs.Codec.Changes
import AuditTrail.Proofs.Store.Keys

/-!
# Documents there and back

What is written as a document and read from it is what it was, field by field.  Of the words that
are not numbers only one is left.  No two ids have one document.
-/

namespace AuditTrail

open Codec

namespace Codec

/-- What a text stands for, read as a document. -/
def ofText? {α : Type} (read : Nat → Json → Option α) (text : String) : Option α :=
  (Json.read? text).bind (read nestingLimit)

end Codec

/-- What is read from its written form is read from its document. -/
theorem ReadsAs.ofText?_print {α : Type} {read : Nat → Json → Option α} {json : Json} {value : α}
    (reads : ReadsAs read json value) (shallow : json.depth ≤ nestingLimit) :
    ofText? read json.print = some value := by
  rw [ofText?, Json.read?_print reads.plain, Option.bind_some, reads.reads nestingLimit shallow]

/-- Where numbers are words, finite floats are read back and nesting is no deeper than documents are
read to, everything is read from its document in its canonical form, which is equal to it.  No two
ids share a key. -/
theorem Codec.ofText?_encode :
    (∀ leaf : Scalar, leaf.Readable →
      ofText? Scalar.decode? leaf.encode.print = some leaf.canonical ∧ leaf.canonical == leaf) ∧
    (∀ value : Captured, value.Readable → value.encode.depth ≤ nestingLimit →
      ofText? Value.decode? value.encode.print = some value.canonical ∧
        value.canonical == value) ∧
    (∀ id : GlobalId, id.Readable → id.encode.depth ≤ nestingLimit →
      ofText? GlobalId.decode? id.encode.print = some id) ∧
    (∀ state : State, state.Readable → state.encode.depth ≤ nestingLimit →
      ofText? State.decode? state.encode.print = some state.canonical) ∧
    (∀ change : Change, change.Readable → change.encode.depth ≤ nestingLimit →
      ofText? Change.decode? change.encode.print = some change.canonical ∧
        change.canonical == change) ∧
    (∀ diff : Diff, diff.Readable → diff.encode.depth ≤ nestingLimit →
      ofText? Diff.decode? diff.encode.print = some diff.canonical ∧ diff.canonical == diff) ∧
    (∀ metadata : CommitMetadata, metadata.Fits →
      ofText? CommitMetadata.decode? metadata.encode.print = some metadata) ∧
    (∀ snapshot : Snapshot, snapshot.Readable → snapshot.encode.depth ≤ nestingLimit →
      ofText? Snapshot.decode? snapshot.encode.print = some snapshot.canonical) ∧
    Function.Injective SnapshotRow.keyOf := by
  refine ⟨fun leaf readable => ?_, fun value readable shallow => ?_, fun id readable shallow => ?_,
    fun state readable shallow => ?_, fun change readable shallow => ?_,
    fun diff readable shallow => ?_, fun metadata fits => ?_, fun snapshot readable shallow => ?_,
    SnapshotRow.keyOf_injective⟩
  · have shallow : leaf.encode.depth ≤ nestingLimit := leaf.depth_encode.trans (by decide)
    exact ⟨(Scalar.readsAs_encode readable).ofText?_print shallow, leaf.canonical_beq⟩
  · exact ⟨(Value.readsAs_encode readable).ofText?_print shallow, value.canonical_beq⟩
  · exact (GlobalId.readsAs_encode readable).ofText?_print shallow
  · exact (State.readsAs_encode readable).ofText?_print shallow
  · exact ⟨(Change.readsAs_encode readable).ofText?_print shallow, change.canonical_beq⟩
  · exact ⟨(Diff.readsAs_encode readable).ofText?_print shallow, diff.canonical_beq⟩
  · have shallow : metadata.encode.depth ≤ nestingLimit :=
      metadata.depth_encode.le.trans (by decide)
    exact (CommitMetadata.readsAs_encode fits).ofText?_print shallow
  · exact (Snapshot.readsAs_encode readable).ofText?_print shallow

/-- A part of an order with a half, a negative zero, an infinity and a word that is not a number,
and a change to such a word: what is read is the same but for the word. -/
theorem Codec.ofText?_encode_floats :
    let floats (other : Binary64) : Captured := .seq [.scalar (.float ⟨0x3FE0000000000000⟩),
      .scalar (.float (.zero true)), .scalar (.float (.infinity true)), .scalar (.float other)]
    let snapshot (other : Binary64) : Snapshot :=
      { id := .owned (.entity "Order" (.int (-7))) "lines/0"
        typeName := "Line"
        commit := ⟨⟨2, 0⟩, "ann", 5, 1, Table.ofList [("reason", "import")]⟩
        kind := .update
        state := ⟨[("floats", floats other), ("none", .map [(.null, .ref (.unbounded "Tax"))])]⟩
        changed := ["floats"]
        version := 2
        previous := some ⟨1, 0⟩ }
    let diff (other : Binary64) : Diff :=
      ⟨[⟨.entity "Order" (.text "a"), "Order",
        .property "total" (.value .null (.scalar (.float other)) "null" "NaN")⟩]⟩
    ((snapshot (.nan true)).Readable ∧ (snapshot (.nan true)).encode.depth ≤ nestingLimit ∧
      ofText? Snapshot.decode? (snapshot (.nan true)).encode.print =
        some (snapshot (.nan false))) ∧
    (diff (.nan true)).Readable ∧ (diff (.nan true)).encode.depth ≤ nestingLimit ∧
      ofText? Diff.decode? (diff (.nan true)).encode.print = some (diff (.nan false)) := by
  intro floats snapshot diff
  obtain ⟨-, -, -, -, -, diffs, -, snapshots, -⟩ := Codec.ofText?_encode
  have snapshot_readable : (snapshot (.nan true)).Readable := by decide +kernel
  have snapshot_shallow : (snapshot (.nan true)).encode.depth ≤ nestingLimit := by decide +kernel
  have diff_readable : (diff (.nan true)).Readable := by decide +kernel
  have diff_shallow : (diff (.nan true)).encode.depth ≤ nestingLimit := by decide +kernel
  exact ⟨⟨snapshot_readable, snapshot_shallow, snapshots _ snapshot_readable snapshot_shallow⟩,
    diff_readable, diff_shallow, (diffs _ diff_readable diff_shallow).1⟩

end AuditTrail
