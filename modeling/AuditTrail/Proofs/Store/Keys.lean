import AuditTrail.Proofs.Codec.Room
import AuditTrail.Proofs.Store.Rows
import AuditTrail.Proofs.Text.Quoted

/-!
# Keys and payloads of rows

The store in rows finds nodes by the written forms of their ids.  These tell where they end,
whatever follows them, so they tell the ids apart.  What is not nested too deeply is read from its
payload.
-/

namespace AuditTrail

open Codec

namespace Json

variable {name name' first second : String} {content content' left left' right right' : Json}
  {rest rest' : List Char}

/-- A written variant shows its name, then its content in front of a brace. -/
theorem content_of_variant_append
    (same : (variant name content).write ++ rest = (variant name' content').write ++ rest') :
    name = name' ∧ content.write ++ '\x7d' :: rest = content'.write ++ '\x7d' :: rest' := by
  simp only [variant, write, writeFields, List.cons_append, List.append_assoc, List.cons.injEq,
    true_and, List.nil_append] at same
  obtain ⟨names, behind⟩ := writeText_append_inj same
  exact ⟨names, (List.cons.inj behind).2⟩

/-- A record of one part shows the part in front of a brace. -/
theorem part_of_record_append
    (same : (obj [(name, content)]).write ++ rest = (obj [(name, content')]).write ++ rest') :
    content.write ++ '\x7d' :: rest = content'.write ++ '\x7d' :: rest' :=
  (content_of_variant_append same).2

/-- A record of two parts shows the first part in front of the second one. -/
theorem parts_of_record_append
    (same : (obj [(first, left), (second, right)]).write ++ rest =
      (obj [(first, left'), (second, right')]).write ++ rest') :
    left.write ++ ',' :: (writeText second ++ ':' :: (right.write ++ '\x7d' :: rest)) =
      left'.write ++ ',' :: (writeText second ++ ':' :: (right'.write ++ '\x7d' :: rest')) := by
  simp only [write, writeFields, List.cons_append, List.append_assoc, List.cons.injEq, true_and,
    List.nil_append] at same
  exact (List.cons.inj (List.append_cancel_left same)).2

theorem notMem_toDigits {c : Char} (other : ¬ c.isDigit) (n : Nat) : c ∉ Nat.toDigits 10 n :=
  fun member => other (isDigit_of_mem_toDigits member)

/-- Written integers tell what they are in front of a brace. -/
theorem write_ofInt_append_inj {n m : Int}
    (same : (ofInt n).write ++ '\x7d' :: rest = (ofInt m).write ++ '\x7d' :: rest') :
    n = m ∧ rest = rest' := by
  have free (n : Int) : '\x7d' ∉ (ofInt n).write := by
    have absent := notMem_toDigits (c := '\x7d') (by decide) n.natAbs
    rw [write_ofInt]
    split <;> simp [absent]
  obtain ⟨written, rests⟩ := Text.append_stop_inj (free n) (free m) same
  refine ⟨?_, rests⟩
  have unsigned (n m : Nat) : '-' :: Nat.toDigits 10 n ≠ Nat.toDigits 10 m := fun mixed =>
    notMem_toDigits (by decide) m (mixed ▸ List.mem_cons_self)
  have sizes (n m : Nat) (digits : Nat.toDigits 10 n = Nat.toDigits 10 m) : n = m := by
    rw [← Nat.ofDigitChars_ten_toDigits (n := n), digits, Nat.ofDigitChars_ten_toDigits]
  rw [write_ofInt, write_ofInt] at written
  split_ifs at written with below below' below'
  · have size := sizes _ _ (List.cons.inj written).2
    omega
  · exact absurd written (unsigned _ _)
  · exact absurd written.symm (unsigned _ _)
  · have size := sizes _ _ written
    omega

end Json

/-- Written identities tell what they are, whatever follows them. -/
theorem LocalId.write_encode_append_inj {left right : LocalId} {rest rest' : List Char}
    (same : left.encode.write ++ rest = right.encode.write ++ rest') :
    left = right ∧ rest = rest' := by
  cases left with
  | int n =>
      cases right with
      | int m =>
          obtain ⟨rfl, rests⟩ :=
            Json.write_ofInt_append_inj (Json.content_of_variant_append same).2
          exact ⟨rfl, rests⟩
      | text => exact absurd (Json.content_of_variant_append same).1 (by decide)
  | text name =>
      cases right with
      | int => exact absurd (Json.content_of_variant_append same).1 (by decide)
      | text other =>
          obtain ⟨rfl, rests⟩ := Json.writeText_append_inj (Json.content_of_variant_append same).2
          exact ⟨rfl, (List.cons.inj rests).2⟩

/-- Written ids tell what they are, whatever follows them. -/
theorem GlobalId.write_encode_append_inj {left right : GlobalId} {rest rest' : List Char}
    (same : left.encode.write ++ rest = right.encode.write ++ rest') :
    left = right ∧ rest = rest' := by
  induction left generalizing right rest rest' with
  | entity typeName localId =>
      cases right with
      | entity otherName otherId =>
          have parts := Json.parts_of_record_append (Json.content_of_variant_append same).2
          obtain ⟨rfl, behind⟩ := Json.writeText_append_inj parts
          have behind := (List.cons.inj (List.append_cancel_left (List.cons.inj behind).2)).2
          obtain ⟨rfl, rests⟩ := LocalId.write_encode_append_inj behind
          exact ⟨rfl, (List.cons.inj (List.cons.inj rests).2).2⟩
      | unbounded => exact absurd (Json.content_of_variant_append same).1 (by decide)
      | owned => exact absurd (Json.content_of_variant_append same).1 (by decide)
  | unbounded typeName =>
      cases right with
      | entity => exact absurd (Json.content_of_variant_append same).1 (by decide)
      | unbounded otherName =>
          have part := Json.part_of_record_append (Json.content_of_variant_append same).2
          obtain ⟨rfl, rests⟩ := Json.writeText_append_inj part
          exact ⟨rfl, (List.cons.inj (List.cons.inj rests).2).2⟩
      | owned => exact absurd (Json.content_of_variant_append same).1 (by decide)
  | owned owner fragment induction =>
      cases right with
      | entity => exact absurd (Json.content_of_variant_append same).1 (by decide)
      | unbounded => exact absurd (Json.content_of_variant_append same).1 (by decide)
      | owned other otherFragment =>
          have parts := Json.parts_of_record_append (Json.content_of_variant_append same).2
          obtain ⟨rfl, behind⟩ := induction parts
          have behind := (List.cons.inj (List.append_cancel_left (List.cons.inj behind).2)).2
          obtain ⟨rfl, rests⟩ := Json.writeText_append_inj behind
          exact ⟨rfl, (List.cons.inj (List.cons.inj rests).2).2⟩

/-- No two nodes share a key. -/
theorem SnapshotRow.keyOf_injective : Function.Injective keyOf := by
  intro left right same
  have written : left.encode.write = right.encode.write := String.ofList_injective same
  exact (GlobalId.write_encode_append_inj (congrArg (· ++ []) written)).1

/-- A commit fits if its numbers are within their words and its snapshots can be read. -/
theorem RowStore.fits_of_fitsIn {commit : Commit}
    (ids : commit.id.major < 2 ^ 63 ∧ commit.id.minor < 2 ^ 32 ∧ commit.metadata.sequence < 2 ^ 63)
    (snapshots : ∀ snapshot ∈ commit.snapshots,
      snapshot.version < 2 ^ 63 ∧ snapshot.FitsIn (nestingLimit - 1)) : Fits commit where
  major := ids.1
  minor := ids.2.1
  sequence := ids.2.2
  version snapshot member := (snapshots snapshot member).1
  readable snapshot member := by
    obtain ⟨reads, deep⟩ := Snapshot.readsAs_of_fitsIn (snapshots snapshot member).2
    exact Payload.decode_encode (by decide) reads deep

end AuditTrail
