import AuditTrail.Proofs.Codec.Reading

/-!
# Written forms are plain

Whatever the numbers in it, a written form is read from its text as the document that it was, even
where no value is read from that document.  So what is read of an id is the id if it is anything,
and what is read of a snapshot depends on its changed names in nothing but the changed names.
-/

namespace AuditTrail

open Codec Json

theorem Codec.plain_float (word : Binary64) : (Codec.float word).Plain := by
  unfold Codec.float
  split
  next => exact legible_of_digits (documentFloat.fraction_numeral_lt word)
  next => trivial

theorem Scalar.plain_encode (leaf : Scalar) : leaf.encode.Plain := by
  cases leaf with
  | bool | text => exact ⟨trivial, trivial⟩
  | int n => exact ⟨legible_ofInt n, trivial⟩
  | float word => exact ⟨Codec.plain_float word, trivial⟩

theorem LocalId.plain_encode (localId : LocalId) : localId.encode.Plain := by
  cases localId with
  | int n => exact ⟨legible_ofInt n, trivial⟩
  | text => exact ⟨trivial, trivial⟩

theorem GlobalId.plain_encode (id : GlobalId) : id.encode.Plain := by
  induction id with
  | entity typeName localId => exact ⟨⟨trivial, localId.plain_encode, trivial⟩, trivial⟩
  | owned owner fragment induction => exact ⟨⟨induction, trivial, trivial⟩, trivial⟩
  | unbounded typeName => exact ⟨⟨trivial, trivial⟩, trivial⟩

theorem Value.plain_encode (value : Captured) : value.encode.Plain := by
  induction value using Value.induction with
  | null => trivial
  | scalar leaf => exact ⟨leaf.plain_encode, trivial⟩
  | ref id => exact ⟨id.plain_encode, trivial⟩
  | seq items induction =>
      rw [encode, encodeItems_eq]
      exact ⟨plainItems_map induction, trivial⟩
  | map entries induction =>
      rw [encode, encodeEntries_eq]
      refine ⟨plainItems_map fun entry member => ?_, trivial⟩
      exact ⟨(induction entry member).1, (induction entry member).2, trivial⟩

theorem State.plain_encode (state : State) : state.encode.Plain :=
  ⟨plainItems_map fun entry _ => ⟨trivial, Value.plain_encode entry.2, trivial⟩, trivial⟩

theorem CommitId.plain_encode (id : CommitId) : id.encode.Plain :=
  ⟨legible_ofInt _, legible_ofInt _, trivial⟩

theorem CommitMetadata.plain_encode (metadata : CommitMetadata) : metadata.encode.Plain :=
  ⟨metadata.id.plain_encode, trivial, legible_ofInt _, legible_ofInt _,
    (Labels.readsAs_encode metadata.properties).plain, trivial⟩

theorem Snapshot.plain_encode (snapshot : Snapshot) : snapshot.encode.Plain := by
  have previous : (optional CommitId.encode snapshot.previous).Plain := by
    cases snapshot.previous with
    | none => trivial
    | some id => exact id.plain_encode
  exact ⟨snapshot.id.plain_encode, trivial, snapshot.commit.plain_encode, trivial,
    snapshot.state.plain_encode, plainItems_map fun _ _ => trivial, legible_ofInt _, previous,
    trivial⟩

/-- Whatever is read of a written identity is the identity. -/
theorem LocalId.eq_of_decode? {room : Nat} {localId found : LocalId}
    (read : decode? room localId.encode = some found) : found = localId := by
  cases room with
  | zero => cases localId <;> cases read
  | succ room =>
      cases localId with
      | int n =>
          have part : decode? (room + 1) (int n).encode = (signed? (.ofInt n)).map int := rfl
          rw [part, signed?, integer?_ofInt, Option.map_eq_some_iff] at read
          obtain ⟨m, kept, rfl⟩ := read
          rw [Option.some.inj (Option.filter_eq_some_iff.mp kept).1]
      | text name => exact (Option.some.inj read).symm

/-- Whatever is read of a written id is the id. -/
theorem GlobalId.eq_of_decode? {room : Nat} {id found : GlobalId}
    (read : decode? room id.encode = some found) : found = id := by
  induction id generalizing room found with
  | entity typeName localId =>
      match room with
      | 0 | 1 => cases read
      | room + 2 =>
          have part : decode? (room + 2) (entity typeName localId).encode =
              (LocalId.decode? room localId.encode).map (entity typeName) := by
            rw [Option.map_eq_bind]
            rfl
          rw [part, Option.map_eq_some_iff] at read
          obtain ⟨same, identity, rfl⟩ := read
          rw [LocalId.eq_of_decode? identity]
  | unbounded typeName =>
      match room with
      | 0 | 1 => cases read
      | room + 2 => exact (Option.some.inj read).symm
  | owned owner fragment induction =>
      match room with
      | 0 | 1 => cases read
      | room + 2 =>
          have part : decode? (room + 2) (owned owner fragment).encode =
              (decode? room owner.encode).map fun owner => owned owner fragment := by
            rw [Option.map_eq_bind]
            rfl
          rw [part, Option.map_eq_some_iff] at read
          obtain ⟨other, identity, rfl⟩ := read
          rw [induction identity]

/-- A payload is read as the document that was written. -/
theorem Payload.decode_encode_eq {α : Type} {name : String} (other : name ≠ "format_version")
    (read : Nat → Json → Option α) {content : Json} (plain : content.Plain) :
    decode name read (encode name content) =
      match read (nestingLimit - 1) content with
      | none => .error .undecodable
      | some value => .ok value := by
  have whole : (Json.obj [("format_version", .ofNat payloadVersion), (name, content)]).Plain :=
    ⟨legible_ofInt _, plain, trivial⟩
  have version : natural? 16 (.ofNat payloadVersion) = some payloadVersion := rfl
  have parts : record? nestingLimit ["format_version", name] []
      (.obj [("format_version", .ofNat payloadVersion), (name, content)]) =
        some (nestingLimit - 1, [some (.ofNat payloadVersion), some content]) := by
    simp [record?, nestingLimit, other, Ne.symm other]
  rw [decode, encode, read?_print whole]
  simp only [Option.bind_eq_bind, Option.bind_some, parts, version]
  cases read (nestingLimit - 1) content <;> rfl

namespace Snapshot

/-- A snapshot is read part by part. -/
theorem decode?_encode (room : Nat) (snapshot : Snapshot) :
    decode? (room + 2) snapshot.encode =
      (GlobalId.decode? (room + 1) snapshot.id.encode).bind fun id =>
      (CommitMetadata.decode? (room + 1) snapshot.commit.encode).bind fun commit =>
      (State.decode? (room + 1) snapshot.state.encode).bind fun state =>
      (natural? 64 (.ofNat snapshot.version)).bind fun version =>
      (optional? CommitId.decode? (room + 1) (optional CommitId.encode snapshot.previous)).bind
        fun previous =>
          some ⟨id, snapshot.typeName, commit, snapshot.kind, state, snapshot.changed, version,
            previous⟩ := by
  have kind_read : SnapshotKind.decode? (room + 1) snapshot.kind.encode = some snapshot.kind :=
    (SnapshotKind.readsAs_encode snapshot.kind).reads _ (Nat.zero_le _)
  have names_read : list? (fun _ => text?) (room + 1) (list .str snapshot.changed) =
      some snapshot.changed := by
    have read : (snapshot.changed.map Json.str).mapM text? =
        some (snapshot.changed.map fun name => name) := mapM_encode fun _ _ => rfl
    rwa [List.map_id'] at read
  have parts : decode? (room + 2) snapshot.encode =
      (GlobalId.decode? (room + 1) snapshot.id.encode).bind fun id =>
      (CommitMetadata.decode? (room + 1) snapshot.commit.encode).bind fun commit =>
      (SnapshotKind.decode? (room + 1) snapshot.kind.encode).bind fun kind =>
      (State.decode? (room + 1) snapshot.state.encode).bind fun state =>
      (list? (fun _ => text?) (room + 1) (list .str snapshot.changed)).bind fun changed =>
      (natural? 64 (.ofNat snapshot.version)).bind fun version =>
      (optional? CommitId.decode? (room + 1) (optional CommitId.encode snapshot.previous)).bind
        fun previous =>
          some ⟨id, snapshot.typeName, commit, kind, state, changed, version, previous⟩ := rfl
  simp only [parts, kind_read, names_read, Option.bind_some]

/-- What is read of a snapshot is of the node that was written. -/
theorem id_of_decode? {room : Nat} {snapshot found : Snapshot}
    (read : decode? (room + 2) snapshot.encode = some found) : found.id = snapshot.id := by
  rw [decode?_encode] at read
  simp only [Option.bind_eq_some_iff, Option.some.injEq] at read
  obtain ⟨_, named, _, -, _, -, _, -, _, -, rfl⟩ := read
  exact GlobalId.eq_of_decode? named

/-- What is read of a snapshot has the changed names that were written, and otherwise does not
depend on them. -/
theorem decode?_changed (room : Nat) (snapshot : Snapshot) (changed : List String) :
    decode? (room + 2) { snapshot with changed }.encode =
      (decode? (room + 2) snapshot.encode).map fun found => { found with changed } := by
  simp only [decode?_encode, Option.map_bind, Function.comp_def, Option.map_some]

/-- What is read of a snapshot is of the kind that was written. -/
theorem kind_of_decode? {room : Nat} {snapshot found : Snapshot}
    (read : decode? (room + 2) snapshot.encode = some found) : found.kind = snapshot.kind := by
  rw [decode?_encode] at read
  simp only [Option.bind_eq_some_iff, Option.some.injEq] at read
  obtain ⟨_, -, _, -, _, -, _, -, _, -, rfl⟩ := read
  rfl

/-- What is read of a snapshot has the version that was written, which is one of 64 bits. -/
theorem version_of_decode? {room : Nat} {snapshot found : Snapshot}
    (read : decode? (room + 2) snapshot.encode = some found) :
    found.version = snapshot.version ∧ snapshot.version < 2 ^ 64 := by
  rw [decode?_encode] at read
  simp only [Option.bind_eq_some_iff, Option.some.injEq] at read
  obtain ⟨_, -, _, -, _, -, version, version_read, _, -, rfl⟩ := read
  exact eq_of_natural? version_read

end Snapshot
end AuditTrail
