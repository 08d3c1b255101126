import AuditTrail.Proofs.Journal.Reproduction
import AuditTrail.Proofs.Shadow.Recapture

/-!
# Comparing shadows with what they were recorded from

The shadow of an entity recorded in an empty store is captured as the graph that was recorded, and
so does not differ from the entity.  This takes names that the shadow can find again: a content that
says more than the shadow holds gives an element of a set another name, and two elements of one name
that the shadow merges may change the order in which others are named.
-/

namespace AuditTrail

open Schema Capture

namespace Journal

variable {σ : Type} [Store σ] (contract : Store.Contract σ) {plan : JournalPlan}
  {journal after : Journal σ} {moment : Moment} {author : String} {properties : Labels}
  {heap : Heap} {root : Slot} {id : GlobalId} {current : Graph} {commit : Commit}

/-- Behind the recording of a graph in an empty store, each node is live as it was captured. -/
theorem live?_of_first (holds : contract.Holds journal.store [])
    (extends_log : commit.Extends []) (consists : commit.ConsistsOf
      (Commit.Due journal.types journal.settings.alignment journal.store current))
    {node : Node} (found : current.find? id = some node) :
    ∃ snapshot, CommitLog.live? [commit] id = some snapshot ∧ snapshot.node = node := by
  obtain ⟨snapshot, live, same | ⟨before, -⟩⟩ :=
    live?_of_captured holds extends_log consists found
  · exact ⟨snapshot, live, same⟩
  · cases before

/-- Let the recording of an entity in an empty store succeed, where no two value objects get the
same name and all that contents say is kept.  Then the shadow of the entity is captured as what was
recorded, and comparing it with the entity finds no change, if captured maps have distinct keys and
comparators pass natively equal values. -/
theorem compare_shadow (opened : start plan contract.empty = .ok journal)
    (are : journal.types.ComparatorsAre PassesEqual PassesEqual)
    (identified : journal.idOf heap root = .ok id) (entity : ¬ id.isValueObject)
    (captured : journal.capture heap [root] = .ok current)
    (keys : ∀ node ∈ current.nodes.rows, ∀ entry ∈ node.state.entries, entry.2.KeysDistinct)
    (apart : NamedApart journal.types heap [root])
    (whole : WrittenWhole journal.types heap root)
    (recorded : journal.commit moment author properties heap [root] = (.ok commit, after))
    (fits : contract.Fits commit) :
    ∃ shadow diff, after.shadow id .latest .deep = .ok shadow ∧
      after.capture shadow.heap [shadow.root] = .ok current ∧
      after.compare (shadow.heap, shadow.root) (heap, root) = .ok diff ∧ diff.isEmpty := by
  have accepted := types_of_start opened
  have holds := (recorded_of_start contract opened).holds
  obtain ⟨extends_log, consists, types_eq, source⟩ :=
    commit_spec contract holds captured recorded fits
  have root_identified := mapError_eq_ok_iff.mp identified
  obtain ⟨names, walked⟩ := capture_eq_ok_iff.mp (mapError_eq_ok_iff.mp captured)
  have live (other : GlobalId) (node : Node) (found : current.find? other = some node) :=
    live?_of_first contract holds extends_log consists found
  have root_found := (Shadow.rootId_eq_ok_iff accepted entity).mp root_identified
  have root_mem : id ∈ current.ids :=
    (captureWalk_traced root_found root_identified walked).2.captured _ (List.mem_singleton_self _)
  obtain ⟨node, node_found⟩ := Option.isSome_iff_exists.mp (Graph.mem_ids_iff.mp root_mem)
  obtain ⟨snapshot, snapshot_live, -⟩ := live id node node_found
  obtain ⟨copy, listing, link, rebuilds, rebuilt⟩ :=
    Shadow.ofSnapshot_spec source journal.types .deep snapshot_live
  have recaptured : after.capture copy [0] = .ok current := by
    rw [capture, types_eq, mapError_eq_ok_iff]
    exact rebuilt.recapture accepted root_identified entity walked
      (apart _ _ walked) whole live
  have captured_again : after.capture heap [root] = .ok current := by
    rwa [capture, types_eq]
  refine ⟨⟨copy, 0, snapshot.commit⟩, after.compareGraphs current current, ?_, recaptured, ?_, ?_⟩
  · rw [Journal.shadow, types_eq, Shadow.of_eq source journal.types rfl, snapshot_live]
    simp only [rebuilds]
    rfl
  · rw [compare, recaptured, captured_again]
    rfl
  · rw [compareGraphs, types_eq]
    exact (Comparison.isEmpty_between_self_iff are after.settings.diffOptions current).2 keys

/-- The tags of a user share a spot from which references lead back to it and to the user.  The user
has lost an explicit null and a secret in the shadow, but the tags are not named by these. -/
theorem compare_shadow_tagged :
    let user : Definition :=
      .entity ⟨"User", none, [⟨"id", .named "int", true, false⟩,
        ⟨"nick", .named "string", false, false⟩, ⟨"secret", .named "Secret", false, false⟩,
        ⟨"tags", .set (.named "Tag"), false, false⟩], []⟩ none
    let secret : Definition := .ignored "Secret"
    let tag : Definition :=
      .valueObject ⟨"Tag", none, [⟨"name", .named "string", false, false⟩,
        ⟨"at", .named "Spot", false, false⟩], []⟩
    let spot : Definition :=
      .valueObject ⟨"Spot", none, [⟨"of", .named "User", false, false⟩,
        ⟨"by", .named "Spot", false, false⟩], []⟩
    let plan : JournalPlan := ⟨[user, secret, tag, spot], {}⟩
    let heap : Heap :=
      ⟨[.ofList "User" [("id", .scalar (.int 1)), ("nick", .null), ("secret", .ref 5),
          ("tags", .seq [.ref 1, .ref 2])],
        .ofList "Tag" [("name", .scalar (.text "a")), ("at", .ref 3)],
        .ofList "Tag" [("name", .scalar (.text "b")), ("at", .ref 3)],
        .ofList "Spot" [("of", .ref 0), ("by", .ref 4)], .ofList "Spot" [("by", .ref 3)],
        .ofClass "Secret"]⟩
    let id : GlobalId := .entity "User" (.int 1)
    ∃ journal : Journal MemoryStore, start plan MemoryStore.contract.empty = .ok journal ∧
      NamedApart journal.types heap [0] ∧ WrittenWhole journal.types heap 0 ∧
      ∃ current commit after, journal.capture heap [0] = .ok current ∧ current.ids.length = 5 ∧
        journal.commit ⟨0, 0⟩ "ann" .empty heap [0] = (.ok commit, after) ∧
        ∃ shadow diff, after.shadow id .latest .deep = .ok shadow ∧
          after.capture shadow.heap [shadow.root] = .ok current ∧
          after.compare (shadow.heap, shadow.root) (heap, 0) = .ok diff ∧ diff.isEmpty := by
  intro user secret tag spot plan heap id
  obtain ⟨journal, opened, values, customs⟩ : ∃ journal : Journal MemoryStore,
      start plan MemoryStore.contract.empty = .ok journal ∧ journal.types.values = [] ∧
        journal.types.customs = [] := ⟨_, rfl, rfl, rfl⟩
  have usual : ∀ journal ∈ (start plan MemoryStore.contract.empty).toOption,
      id ∈ (journal.idOf heap 0).toOption ∧
        (∀ object ∈ heap.instances, ∀ managed ∈ journal.types.managedOf? object.className,
          ¬ managed.isEntity → Whole journal.types heap object managed) ∧
        (journal.commit ⟨0, 0⟩ "ann" .empty heap [0]).1.toOption.isSome ∧
        ∃ outcome ∈ (captureWalk journal.types heap [0]).toOption,
          (outcome.2.names.map Prod.snd).Nodup ∧ outcome.1.ids.length = 5 ∧
            ∀ node ∈ outcome.1.nodes.rows, ∀ entry ∈ node.state.entries,
              entry.2.KeysDistinct := by decide +kernel
  obtain ⟨identified, whole, records, ⟨current, last⟩, walked, distinct, five, keys⟩ :=
    usual journal (mem_toOption opened)
  obtain ⟨commit, recorded⟩ := exists_of_toOption records
  have apart : NamedApart journal.types heap [0] :=
    namedApart_of_captureWalk (mem_toOption_iff.mp walked) distinct
  have captured : journal.capture heap [0] = .ok current :=
    mapError_eq_ok_iff.mpr (capture_eq_ok_iff.mpr ⟨last, mem_toOption_iff.mp walked⟩)
  have written_whole : WrittenWhole journal.types heap 0 := writtenWhole_of_valueObjects whole
  refine ⟨journal, opened, apart, written_whole, current, commit, _, captured, five,
    Prod.ext recorded rfl, ?_⟩
  exact compare_shadow MemoryStore.contract opened
    (TypeTable.comparatorsAre_of_native values customs) (mem_toOption_iff.mp identified)
    (by decide) captured keys apart written_whole (Prod.ext recorded rfl) trivial

/-- Without value rules and custom classes, an entity is recorded in an empty store whose captured
maps have distinct keys.  Comparing its shadow with the entity finds changes. -/
def Strays (definitions : List Definition) (heap : Heap) : Prop :=
  ∃ journal : Journal MemoryStore,
    start ⟨definitions, {}⟩ MemoryStore.contract.empty = .ok journal ∧
    journal.types.values = [] ∧ journal.types.customs = [] ∧
    ∃ id current commit after, journal.idOf heap 0 = .ok id ∧ ¬ id.isValueObject ∧
      journal.capture heap [0] = .ok current ∧
      (∀ node ∈ current.nodes.rows, ∀ entry ∈ node.state.entries, entry.2.KeysDistinct) ∧
      journal.commit ⟨0, 0⟩ "ann" .empty heap [0] = (.ok commit, after) ∧
      ∃ shadow diff, after.shadow id .latest .deep = .ok shadow ∧
        after.compare (shadow.heap, shadow.root) (heap, 0) = .ok diff ∧ ¬ diff.isEmpty

theorem strays_of {definitions : List Definition} {heap : Heap} {journal : Journal MemoryStore}
    (opened : start ⟨definitions, {}⟩ MemoryStore.contract.empty = .ok journal)
    (values : journal.types.values = []) (customs : journal.types.customs = [])
    (strays : ∃ id ∈ (journal.idOf heap 0).toOption, ¬ id.isValueObject ∧
      ∃ current ∈ (journal.capture heap [0]).toOption,
        (∀ node ∈ current.nodes.rows, ∀ entry ∈ node.state.entries, entry.2.KeysDistinct) ∧
        (journal.commit ⟨0, 0⟩ "ann" .empty heap [0]).1.toOption.isSome ∧
        ∃ shadow ∈ ((journal.commit ⟨0, 0⟩ "ann" .empty heap [0]).2.shadow id .latest
            .deep).toOption,
          ∃ diff ∈ ((journal.commit ⟨0, 0⟩ "ann" .empty heap [0]).2.compare
              (shadow.heap, shadow.root) (heap, 0)).toOption, ¬ diff.isEmpty) :
    Strays definitions heap := by
  obtain ⟨id, identified, entity, current, captured, keys, records, strays⟩ := strays
  obtain ⟨shadow, found, diff, compared, changed⟩ := strays
  obtain ⟨commit, recorded⟩ := exists_of_toOption records
  exact ⟨journal, opened, values, customs, id, current, commit, _, mem_toOption_iff.mp identified,
    entity, mem_toOption_iff.mp captured, keys, Prod.ext recorded rfl, shadow, diff,
    mem_toOption_iff.mp found, mem_toOption_iff.mp compared, changed⟩

/-- An explicit null, and a property of an ignored class, are part of a tag's content but not of its
copy.  Of three tags at one place, the first and the last have one content, so the shadow has one
tag for both, and the place is first reached through another tag than before. -/
theorem strays_renamed :
    let user : Definition :=
      .entity ⟨"User", none, [⟨"id", .named "int", true, false⟩,
        ⟨"tags", .set (.named "Tag"), false, false⟩], []⟩ none
    let noted (type : String) : Definition :=
      .valueObject ⟨"Tag", none, [⟨"name", .named "string", false, false⟩,
        ⟨"note", .named type, false, false⟩], []⟩
    let place : Definition :=
      .valueObject ⟨"Place", none, [⟨"city", .named "string", false, false⟩], []⟩
    let tagged (note : Live) : Heap :=
      ⟨[.ofList "User" [("id", .scalar (.int 1)), ("tags", .seq [.ref 1])],
        .ofList "Tag" [("name", .scalar (.text "a")), ("note", note)]]⟩
    let shared : Heap :=
      ⟨[.ofList "User" [("id", .scalar (.int 1)), ("tags", .seq [.ref 1, .ref 2, .ref 3])],
        .ofList "Tag" [("name", .scalar (.text "a")), ("note", .ref 4)],
        .ofList "Tag" [("name", .scalar (.text "b")), ("note", .ref 4)],
        .ofList "Tag" [("name", .scalar (.text "a")), ("note", .ref 4)],
        .ofList "Place" [("city", .scalar (.text "Oslo"))]]⟩
    Strays [user, noted "string"] (tagged .null) ∧
      Strays [user, noted "Token", .ignored "Token"] (tagged (.scalar (.text "secret"))) ∧
      Strays [user, noted "Place", place] shared := by
  intro user noted place tagged shared
  refine ⟨?_, ?_, ?_⟩
  · exact strays_of rfl rfl rfl (by decide +kernel)
  · exact strays_of rfl rfl rfl (by decide +kernel)
  · exact strays_of rfl rfl rfl (by decide +kernel)

end Journal
end AuditTrail
