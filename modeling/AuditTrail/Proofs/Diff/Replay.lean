import AuditTrail.Proofs.Diff.Comparison
import AuditTrail.Proofs.State

/-!
# Replaying a diff

Replaying the diff between two graphs on the old one gives a graph with the nodes of the new one,
from which the new one does not differ any more.  Elements and entries that are merely equal to
those of the new graph may stay as they were, so the two graphs need not be the same.
-/

namespace AuditTrail

open Schema Comparison

namespace Delta

/-- Give an entry the new value if its key changes. -/
def updateEntry (entry : Captured × Captured) (change : EntryChange) : Captured × Captured :=
  if entry.1 == change.key then (entry.1, change.new) else entry

theorem key_updateEntry (entry : Captured × Captured) (change : EntryChange) :
    (updateEntry entry change).1 = entry.1 := by
  unfold updateEntry
  split <;> rfl

theorem key_foldl_updateEntry (changes : List EntryChange) (entry : Captured × Captured) :
    (changes.foldl updateEntry entry).1 = entry.1 := by
  induction changes generalizing entry with
  | nil => rfl
  | cons change changes induction => rw [List.foldl_cons, induction, key_updateEntry]

/-- If all changes of a key agree, its entry ends with their value or was not changed at all. -/
theorem value_foldl_updateEntry {changes : List EntryChange} {entry : Captured × Captured}
    {new : Captured} (agree : ∀ change ∈ changes, entry.1 == change.key → change.new = new) :
    (changes.foldl updateEntry entry).2 = new ∨
      (∀ change ∈ changes, ¬ entry.1 == change.key) ∧
        (changes.foldl updateEntry entry).2 = entry.2 := by
  induction changes generalizing entry with
  | nil => exact .inr ⟨fun _ member => (nomatch member), rfl⟩
  | cons change changes induction =>
      have rest_agree : ∀ later ∈ changes, (updateEntry entry change).1 == later.key →
          later.new = new := by
        intro later member
        rw [key_updateEntry]
        exact agree later (List.mem_cons_of_mem _ member)
      rw [List.foldl_cons]
      rcases induction rest_agree with ended | ⟨others, ended⟩
      · exact .inl ended
      · rw [ended]
        by_cases here : entry.1 == change.key
        · rw [updateEntry, if_pos here]
          exact .inl (agree change List.mem_cons_self here)
        · rw [key_updateEntry] at others
          rw [updateEntry, if_neg here]
          refine .inr ⟨fun later member => ?_, rfl⟩
          rcases List.mem_cons.mp member with rfl | member
          · exact here
          · exact others later member

theorem changeEntry_eq_map {entries : List (Captured × Captured)}
    (distinct : (Value.map entries).KeysDistinct) (change : EntryChange) :
    changeEntry change entries = entries.map (updateEntry · change) := by
  induction entries with
  | nil => rfl
  | cons entry entries induction =>
      obtain ⟨apart, rest_distinct⟩ := List.pairwise_cons.mp distinct
      rw [changeEntry, List.map_cons, updateEntry]
      split
      next here =>
        have untouched : ∀ other ∈ entries, updateEntry other change = other := by
          intro other member
          rw [updateEntry, if_neg]
          exact fun keys => apart other member (BEq.trans here (BEq.symm keys))
        rw [List.map_congr_left untouched, List.map_id']
      next => rw [induction rest_distinct]

theorem keysDistinct_map {entries : List (Captured × Captured)}
    (distinct : (Value.map entries).KeysDistinct)
    {update : Captured × Captured → Captured × Captured}
    (keys : ∀ entry, (update entry).1 = entry.1) :
    (Value.map (entries.map update)).KeysDistinct := by
  refine List.pairwise_map.mpr (distinct.imp fun apart => ?_)
  rwa [keys, keys]

/-- On a map with different keys, every change acts on each entry by itself. -/
theorem foldl_changeEntry_eq_map {entries : List (Captured × Captured)}
    (distinct : (Value.map entries).KeysDistinct) (changes : List EntryChange) :
    changes.foldl (fun entries change => changeEntry change entries) entries =
      entries.map (changes.foldl updateEntry ·) := by
  induction changes generalizing entries with
  | nil => exact (List.map_id' entries).symm
  | cons change changes induction =>
      have changed_distinct := keysDistinct_map distinct fun entry => key_updateEntry entry change
      rw [List.foldl_cons, changeEntry_eq_map distinct, induction changed_distinct, List.map_map]
      rfl

end Delta

section Containers

variable {alignment : Alignment} {item : Classified}

theorem compareSets_replay (are : item.ComparatorsAre RespectsEqual RespectsEqual)
    {left right : List Captured} {delta : Delta}
    (differs : compareSets item left right = .differs delta) :
    ∃ items, (∀ current : Captured, current.elements?.getD [] = left →
      delta.replay current = .seq items) ∧ compareSets item items right = .same := by
  have passes := are.imp (fun _ => RespectsEqual.passes) fun _ => RespectsEqual.passes
  have self (element : Captured) : item.equal element element :=
    Classified.equal_self passes element
  simp only [compareSets] at differs
  split at differs
  next => cases differs
  next =>
    injection differs with delta_eq
    subst delta_eq
    refine ⟨_, fun current current_eq => by rw [Delta.replay, current_eq],
      compareSets_eq_same_iff.mpr ⟨fun r r_mem => ?_, fun l l_mem => ?_⟩⟩
    · by_cases matched : ∃ l ∈ left, item.equal l r
      · obtain ⟨l, l_mem, equal⟩ := matched
        refine ⟨l, List.mem_append_left _ (List.mem_filter.mpr ⟨l_mem, ?_⟩), equal⟩
        -- An equal element that goes out could stand for `l`, which it does not match.
        simp only [Bool.not_eq_true', List.contains_eq_any_beq, List.any_eq_false, List.mem_filter,
          Bool.not_eq_true', and_imp]
        intro other _ unmatched same
        rw [Classified.equal_congr are same BEq.rfl] at equal
        exact unmatched r r_mem equal
      · refine ⟨r, List.mem_append_right _ (List.mem_filter.mpr ⟨r_mem, ?_⟩), self r⟩
        simpa using matched
    · rcases List.mem_append.mp l_mem with kept | added
      · obtain ⟨l_mem, stays⟩ := List.mem_filter.mp kept
        by_contra unmatched
        have removed : l ∈ left.filter fun l => !right.any fun r => item.equal l r := by
          refine List.mem_filter.mpr ⟨l_mem, ?_⟩
          simpa using unmatched
        rw [Bool.not_eq_true', List.contains_eq_any_beq, List.any_eq_false] at stays
        exact stays l removed BEq.rfl
      · exact ⟨l, (List.mem_filter.mp added).1, self l⟩

theorem compareCollections_replay (are : item.ComparatorsAre RespectsEqual RespectsEqual)
    {kind : CollectionKind} {left right : List Captured} {delta : Delta}
    (differs : compareCollections alignment kind item left right = .differs delta) :
    ∃ items, (∀ current : Captured, current.elements?.getD [] = left →
      delta.replay current = .seq items) ∧
        compareCollections alignment kind item items right = .same := by
  have passes := are.imp (fun _ => RespectsEqual.passes) fun _ => RespectsEqual.passes
  have matching (alignment : Alignment) :=
    Alignment.matching_applyAll (Classified.equal_self passes) alignment left right
  cases kind with
  | list =>
      rw [eq_wrap_of_ofEdits differs]
      exact ⟨_, fun current current_eq => by rw [Delta.replay, current_eq],
        ofEdits_eq_same_iff.mpr (Alignment.script_of_matching _ (matching alignment))⟩
  | array =>
      rw [eq_wrap_of_ofEdits differs]
      exact ⟨_, fun current current_eq => by rw [Delta.replay, current_eq],
        ofEdits_eq_same_iff.mpr (Alignment.script_of_matching _ (matching .positional))⟩
  | set => exact compareSets_replay are differs

/-- The entries of the left map that are not taken away. -/
def keptEntries (left right : List (Captured × Captured)) : List (Captured × Captured) :=
  left.filter fun entry =>
    !(sortByKey (·.1) (newEntries right left)).any fun other => other.1 == entry.1

/-- Entries stay if their keys are on the right. -/
theorem mem_keptEntries_iff {left right : List (Captured × Captured)}
    {entry : Captured × Captured} :
    entry ∈ keptEntries left right ↔ entry ∈ left ∧ (valueAt? right entry.1).isSome := by
  simp only [keptEntries, List.mem_filter, Bool.not_eq_true', List.any_eq_false, mem_sortByKey,
    mem_newEntries_iff, and_imp]
  refine and_congr_right fun entry_mem => ⟨fun stays => ?_, fun found other _ absent keys => ?_⟩
  · by_contra absent
    exact stays entry entry_mem absent BEq.rfl
  · rw [valueAt?_congr right keys] at absent
    exact absent found

/-- An entry that stays is changed to a value that does not differ from the one on the right. -/
theorem equal_of_kept (are : item.ComparatorsAre PassesEqual PassesEqual)
    {left right : List (Captured × Captured)} {entry : Captured × Captured}
    (member : entry ∈ left) {new : Captured} (found : valueAt? right entry.1 = some new) :
    item.equal ((sortByKey EntryChange.key (changedEntries item left right)).foldl
      Delta.updateEntry entry).2 new := by
  have agree : ∀ change ∈ sortByKey EntryChange.key (changedEntries item left right),
      entry.1 == change.key → change.new = new := by
    intro change change_mem keys
    rw [mem_sortByKey, mem_changedEntries_iff] at change_mem
    rw [valueAt?_congr right keys, change_mem.2.1, Option.some.injEq] at found
    exact found
  rcases Delta.value_foldl_updateEntry agree with ended | ⟨others, ended⟩
  · rw [ended]
    exact Classified.equal_self are new
  · rw [ended]
    by_contra different
    apply others ⟨entry.1, entry.2, new⟩ (mem_sortByKey.mpr ?_) BEq.rfl
    exact mem_changedEntries_iff.mpr ⟨member, found, different⟩

theorem compareMaps_replay (are : item.ComparatorsAre PassesEqual PassesEqual)
    {left right : List (Captured × Captured)} (left_distinct : (Value.map left).KeysDistinct)
    (right_distinct : (Value.map right).KeysDistinct) {delta : Delta}
    (differs : compareMaps item left right = .differs delta) :
    ∃ entries, (∀ current : Captured, current.entries?.getD [] = left →
      delta.replay current = .map entries) ∧ compareMaps item entries right = .same := by
  rw [compareMaps_eq] at differs
  split at differs
  next => cases differs
  next =>
    injection differs with delta_eq
    subst delta_eq
    have kept_distinct : (Value.map (keptEntries left right)).KeysDistinct :=
      List.Pairwise.filter _ left_distinct
    let changed := sortByKey EntryChange.key (changedEntries item left right)
    refine ⟨(keptEntries left right).map (changed.foldl Delta.updateEntry ·) ++
        sortByKey (·.1) (newEntries left right), fun current current_eq => ?_,
      compareMaps_eq_same_iff.mpr ⟨fun entry entry_mem => ?_, fun entry entry_mem => ?_⟩⟩
    · rw [Delta.replay, current_eq, ← Delta.foldl_changeEntry_eq_map kept_distinct]
      rfl
    · rw [isSome_valueAt?_iff]
      by_cases on_left : (valueAt? left entry.1).isSome
      · obtain ⟨other, other_mem, keys⟩ := isSome_valueAt?_iff.mp on_left
        have on_right : (valueAt? right other.1).isSome :=
          isSome_valueAt?_iff.mpr ⟨entry, entry_mem, BEq.symm keys⟩
        have other_kept := mem_keptEntries_iff.mpr ⟨other_mem, on_right⟩
        refine ⟨_, List.mem_append_left _ (List.mem_map_of_mem other_kept), ?_⟩
        rwa [Delta.key_foldl_updateEntry]
      · refine ⟨entry, List.mem_append_right _ (mem_sortByKey.mpr ?_), BEq.rfl⟩
        exact mem_newEntries_iff.mpr ⟨entry_mem, on_left⟩
    · rcases List.mem_append.mp entry_mem with entry_mem | entry_mem
      · obtain ⟨other, other_kept, rfl⟩ := List.mem_map.mp entry_mem
        obtain ⟨other_mem, on_right⟩ := mem_keptEntries_iff.mp other_kept
        obtain ⟨new, found⟩ := Option.isSome_iff_exists.mp on_right
        refine ⟨new, by rw [Delta.key_foldl_updateEntry, found], ?_⟩
        exact equal_of_kept are other_mem found
      · have entry_mem := (mem_newEntries_iff.mp (mem_sortByKey.mp entry_mem)).1
        exact ⟨entry.2, valueAt?_of_mem right_distinct entry_mem BEq.rfl,
          Classified.equal_self are entry.2⟩

end Containers

section Values

variable {alignment : Alignment} {type : Classified} {left right : Captured} {delta : Delta}

theorem keysDistinct_of_entries? {value : Captured} (distinct : value.KeysDistinct)
    {entries : List (Captured × Captured)} (found : value.entries? = some entries) :
    (Value.map entries).KeysDistinct := by
  cases value <;> simp only [Value.entries?, Option.some.injEq, reduceCtorEq] at found
  case null => rw [← found]; exact List.Pairwise.nil
  case map => rwa [← found]

theorem collection_replay {kind : CollectionKind} {item : Classified}
    (are : item.ComparatorsAre RespectsEqual RespectsEqual)
    (differs : compareContainers alignment (.collection kind item) left right = .differs delta) :
    (∃ items, delta.replay left = .seq items) ∧
      compareContainers alignment (.collection kind item) (delta.replay left) right = .same := by
  cases left_items : left.elements? with
  | none => simp [compareContainers, left_items] at differs
  | some lefts =>
      cases right_items : right.elements? with
      | none => simp [compareContainers, left_items, right_items] at differs
      | some rights =>
          simp only [compareContainers, left_items, right_items] at differs
          obtain ⟨items, replayed, same⟩ := compareCollections_replay are differs
          have items_eq : (Value.seq items : Captured).elements? = some items := rfl
          rw [replayed left (by rw [left_items, Option.getD_some])]
          simp only [compareContainers, items_eq, right_items, same]
          exact ⟨⟨items, rfl⟩, trivial⟩

theorem mapping_replay {key item : Classified}
    (are : item.ComparatorsAre PassesEqual PassesEqual) (left_distinct : left.KeysDistinct)
    (right_distinct : right.KeysDistinct)
    (differs : compareContainers alignment (.mapping key item) left right = .differs delta) :
    (∃ entries, delta.replay left = .map entries) ∧
      compareContainers alignment (.mapping key item) (delta.replay left) right = .same := by
  cases left_entries : left.entries? with
  | none => simp [compareContainers, left_entries] at differs
  | some lefts =>
      cases right_entries : right.entries? with
      | none => simp [compareContainers, left_entries, right_entries] at differs
      | some rights =>
          simp only [compareContainers, left_entries, right_entries] at differs
          obtain ⟨entries, replayed, same⟩ := compareMaps_replay are
            (keysDistinct_of_entries? left_distinct left_entries)
            (keysDistinct_of_entries? right_distinct right_entries) differs
          have entries_eq : (Value.map entries : Captured).entries? = some entries := rfl
          rw [replayed left (by rw [left_entries, Option.getD_some])]
          simp only [compareContainers, entries_eq, right_entries, same]
          exact ⟨⟨entries, rfl⟩, trivial⟩

theorem compareContainers_replay (are : type.ComparatorsAre RespectsEqual RespectsEqual)
    (left_distinct : left.KeysDistinct) (right_distinct : right.KeysDistinct)
    (differs : compareContainers alignment type left right = .differs delta) :
    compareContainers alignment type (delta.replay left) right = .same := by
  cases type with
  | value | reference | custom | ignored | unknown => cases differs
  | collection kind item =>
      have item_are : item.ComparatorsAre RespectsEqual RespectsEqual := are
      exact (collection_replay item_are differs).2
  | mapping key item =>
      have passes : item.ComparatorsAre PassesEqual PassesEqual :=
        Classified.ComparatorsAre.imp (fun _ => RespectsEqual.passes)
          (fun _ => RespectsEqual.passes) are
      exact (mapping_replay passes left_distinct right_distinct differs).2

theorem replay_valueDelta (type : Classified) (left right current : Captured) :
    (valueDelta type left right).replay current = right := rfl

theorem compareLeaves_replay (reported : compareLeaves type left right = some delta)
    (current : Captured) : delta.replay current = right := by
  unfold compareLeaves at reported
  split at reported
  next => cases reported
  next =>
    split at reported
    next edges =>
      rw [Bool.and_eq_true] at edges
      injection reported with delta_eq
      subst delta_eq
      cases right with
      | null | ref => rfl
      | scalar | seq | map => exact absurd edges.2 Bool.false_ne_true
    next =>
      injection reported with delta_eq
      subst delta_eq
      exact replay_valueDelta type left right current

theorem compareShaped_replay {shape : Classified}
    (reported : compareShaped alignment shape type left right = some delta) :
    compareContainers alignment shape left right = .differs delta ∨
      delta.replay left = right := by
  unfold compareShaped at reported
  split at reported
  next differs =>
    injection reported with delta_eq
    subst delta_eq
    exact .inl differs
  next => cases reported
  next => exact .inr (compareLeaves_replay reported left)

/-- The replayed value suggests the same container type as the old one. -/
theorem inferred?_replay {shape : Classified} (left_distinct : left.KeysDistinct)
    (right_distinct : right.KeysDistinct) (found : inferred? left right = some shape)
    (differs : compareContainers alignment shape left right = .differs delta) :
    inferred? (delta.replay left) right = some shape := by
  have respects : (Classified.unknown "").ComparatorsAre RespectsEqual RespectsEqual := trivial
  have passes : (Classified.unknown "").ComparatorsAre PassesEqual PassesEqual := trivial
  unfold inferred? at found
  split at found
  next =>
    injection found with shape_eq
    subst shape_eq
    obtain ⟨⟨items, replayed⟩, -⟩ := collection_replay respects differs
    rw [replayed, inferred?]
  next =>
    injection found with shape_eq
    subst shape_eq
    obtain ⟨⟨items, replayed⟩, -⟩ := collection_replay respects differs
    rw [replayed, inferred?]
  next not_seq =>
    injection found with shape_eq
    subst shape_eq
    obtain ⟨⟨entries, replayed⟩, -⟩ :=
      mapping_replay passes left_distinct right_distinct differs
    rw [replayed]
    cases right with
    | seq items => exact absurd rfl (not_seq items)
    | null | scalar | ref | map => rfl
  next =>
    injection found with shape_eq
    subst shape_eq
    obtain ⟨⟨entries, replayed⟩, -⟩ :=
      mapping_replay passes left_distinct right_distinct differs
    rw [replayed]
    rfl
  next => cases found

/-- Once the difference of two values is replayed on the old one, they do not differ any more. -/
theorem compareValues_replay (are : type.ComparatorsAre RespectsEqual RespectsEqual)
    (left_distinct : left.KeysDistinct) (right_distinct : right.KeysDistinct)
    (reported : compareValues alignment type left right = some delta) :
    compareValues alignment type (delta.replay left) right = none := by
  have passes := are.imp (fun _ => RespectsEqual.passes) fun _ => RespectsEqual.passes
  have settled (replayed : delta.replay left = right) :
      compareValues alignment type (delta.replay left) right = none := by
    rw [replayed]
    exact compareValues_self passes alignment right_distinct
  cases type with
  | ignored => cases reported
  | custom rule =>
      simp only [compareValues] at reported
      split at reported
      next => cases reported
      next =>
        injection reported with delta_eq
        subst delta_eq
        exact settled (replay_valueDelta _ left right left)
  | value | reference => exact settled (compareLeaves_replay reported left)
  | collection | mapping =>
      rcases compareShaped_replay reported with differs | replayed
      · have same := compareContainers_replay are left_distinct right_distinct differs
        simp only [compareValues, compareShaped, same]
      · exact settled replayed
  | unknown name =>
      simp only [compareValues] at reported
      split at reported
      next shape found =>
        rcases compareShaped_replay reported with differs | replayed
        · have same := compareContainers_replay (inferred?_comparatorsAre found) left_distinct
            right_distinct differs
          simp only [compareValues, inferred?_replay left_distinct right_distinct found differs,
            compareShaped, same]
        · exact settled replayed
      next => exact settled (compareLeaves_replay reported left)

/-- What replaying the difference of two values makes of the old one. -/
def replayed (alignment : Alignment) (type : Classified) (left right : Captured) : Captured :=
  match compareValues alignment type left right with
  | some delta => delta.replay left
  | none => left

theorem compareValues_replayed (are : type.ComparatorsAre RespectsEqual RespectsEqual)
    (left_distinct : left.KeysDistinct) (right_distinct : right.KeysDistinct) :
    compareValues alignment type (replayed alignment type left right) right = none := by
  unfold replayed
  split
  next reported => exact compareValues_replay are left_distinct right_distinct reported
  next same => exact same

end Values

section Nodes

variable {types : TypeTable} {alignment : Alignment}

theorem replayNode_compareNodes_none (old new : Option Node) :
    (compareNodes types alignment old new).foldl Change.replayNode none = none := by
  have properties : ∀ change ∈ compareNodes types alignment old new,
      change.replayNode none = none := by
    intro change member
    cases picked : (new <|> old) with
    | none => simp [compareNodes, picked] at member
    | some node =>
        rw [compareNodes_eq types alignment picked] at member
        obtain ⟨property, -, reported⟩ := List.mem_filterMap.mp member
        obtain ⟨delta, -, rfl⟩ := Option.map_eq_some_iff.mp reported
        rfl
  generalize compareNodes types alignment old new = changes at properties
  induction changes with
  | nil => rfl
  | cons change changes induction =>
      rw [List.foldl_cons, properties change List.mem_cons_self]
      exact induction fun later member => properties later (List.mem_cons_of_mem _ member)

/-- Replaying the differences of properties settles each of them and leaves all other properties
alone. -/
theorem replayNode_properties (alignment : Alignment) {properties : List (String × Classified)}
    (distinct : (properties.map (·.1)).Nodup) (old new : State) (reported : Node)
    (node : Node) (names : node.state.names.Nodup)
    (agrees : ∀ property ∈ properties, node.state.get property.1 = old.get property.1) :
    ∃ state,
      (properties.filterMap (propertyChange alignment old new reported)).foldl
          Change.replayNode (some node) = some { node with state := state } ∧
      (∀ property ∈ properties, state.get property.1 =
        replayed alignment property.2 (old.get property.1) (new.get property.1)) ∧
      (∀ name, name ∉ properties.map (·.1) → state.get name = node.state.get name) ∧
      ∀ name ∈ state.names, name ∈ node.state.names ∨ name ∈ properties.map (·.1) := by
  induction properties generalizing node with
  | nil => exact ⟨node.state, rfl, by simp, by simp, fun name member => .inl member⟩
  | cons property properties induction =>
      obtain ⟨fresh, rest_distinct⟩ := List.nodup_cons.mp distinct
      obtain ⟨name, type⟩ := property
      have here := agrees _ List.mem_cons_self
      have later := fun other member => agrees other (List.mem_cons_of_mem (name, type) member)
      simp only at here fresh
      rw [List.filterMap_cons, propertyChange]
      cases found : compareValues alignment type (old.get name) (new.get name) with
      | none =>
          obtain ⟨state, folded, settled, others, stored⟩ :=
            induction rest_distinct node names later
          refine ⟨state, folded, ?_, ?_, ?_⟩
          · intro other member
            rcases List.mem_cons.mp member with rfl | member
            · simp only [others name fresh, here, replayed, found]
            · exact settled other member
          · intro other absent
            rw [List.map_cons, List.mem_cons, not_or] at absent
            exact others other absent.2
          · intro other member
            exact (stored other member).imp_right (List.mem_cons_of_mem name)
      | some delta =>
          let changed : Node :=
            { node with state := node.state.insert name (delta.replay (node.state.get name)) }
          have changed_get (other : String) : changed.state.get other =
              if name = other then delta.replay (node.state.get name)
              else node.state.get other :=
            State.get_insert names name other _
          have apart : ∀ other ∈ properties, name ≠ other.1 := by
            rintro other member rfl
            exact fresh (List.mem_map_of_mem member)
          obtain ⟨state, folded, settled, others, stored⟩ :=
            induction rest_distinct changed (State.nodup_names_insert names _ _)
              fun other member => by
                rw [changed_get, if_neg (apart other member), later other member]
          refine ⟨state, folded, ?_, ?_, ?_⟩
          · intro other member
            rcases List.mem_cons.mp member with rfl | member
            · simp only [others name fresh, changed_get, if_pos, here, replayed, found]
            · exact settled other member
          · intro other absent
            rw [List.map_cons, List.mem_cons, not_or] at absent
            rw [others other absent.2, changed_get, if_neg (Ne.symm absent.1)]
          · intro other member
            rw [List.map_cons, List.mem_cons]
            rcases stored other member with stored | listed
            · rcases State.mem_names_insert stored with rfl | stored
              · exact .inr (.inl rfl)
              · exact .inl stored
            · exact .inr (.inr listed)

theorem type_of_unregistered {old new : Option Node} (new_type : typeOf? types new = none)
    (old_type : typeOf? types old = none) {property : String × Classified}
    (member : property ∈ comparedProperties types old new) : property.2 = .unknown "" := by
  have of_stored (node : Option Node) (member : property ∈ (node.map stored).getD []) :
      property.2 = .unknown "" := by
    cases node with
    | none => cases member
    | some node =>
        obtain ⟨name, -, rfl⟩ := List.mem_map.mp member
        rfl
  rw [comparedProperties_unregistered new_type old_type] at member
  rcases mem_of_mem_addNew member with member | member
  · exact of_stored _ ((mem_of_mem_addNew member).resolve_left List.not_mem_nil)
  · exact of_stored _ member

theorem mem_names_comparedProperties_iff {old new : Option Node}
    (new_type : typeOf? types new = none) (old_type : typeOf? types old = none) {name : String} :
    name ∈ (comparedProperties types old new).map (·.1) ↔
      name ∈ (stateOf old).names ∨ name ∈ (stateOf new).names := by
  have of_stored (node : Option Node) :
      ((node.map stored).getD []).map (·.1) = (stateOf node).names := by
    cases node with
    | none => rfl
    | some node =>
        rw [Option.map_some, Option.getD_some, stored, List.map_map]
        exact List.map_id' _
  rw [comparedProperties_unregistered new_type old_type, mem_names_addNew_iff,
    mem_names_addNew_iff, of_stored, of_stored, List.map_nil]
  simp

/-- A replayed node has no properties to compare that were not compared before. -/
theorem comparedProperties_replayed {old : Option Node} {new result : Node}
    (named : result.typeName = (old.getD new).typeName)
    (stored : ∀ name ∈ result.state.names, name ∈ (stateOf old).names ∨
      name ∈ (comparedProperties types old (some new)).map (·.1)) :
    comparedProperties types (some result) (some new) ⊆
      comparedProperties types old (some new) := by
  have result_type : typeOf? types (some result) = typeOf? types (some (old.getD new)) := by
    simp only [typeOf?, Option.bind_some, named]
  by_cases registered :
      typeOf? types (some new) ≠ none ∨ typeOf? types (some (old.getD new)) ≠ none
  · cases old with
    | none =>
        rw [Option.getD_none] at result_type registered
        rw [comparedProperties_registered (by rwa [result_type]), result_type,
          comparedProperties_registered (.inl (registered.elim id id)), addNew_of_known]
        · exact List.Subset.refl _
        · exact fun property member =>
            mem_names_addNew_iff.mpr (.inr (List.mem_map_of_mem member))
    | some old =>
        rw [Option.getD_some] at result_type registered
        rw [comparedProperties_registered (by rwa [result_type]), result_type,
          comparedProperties_registered registered]
        exact List.Subset.refl _
  · rw [not_or, not_not, not_not] at registered
    have old_type : typeOf? types old = none := by
      cases old with
      | none => rfl
      | some old => exact registered.2
    rw [registered.2] at result_type
    intro property member
    have nothing_known := type_of_unregistered registered.1 result_type member
    have listed : property.1 ∈ (comparedProperties types old (some new)).map (·.1) := by
      have listed := List.mem_map_of_mem (f := (·.1)) member
      rw [mem_names_comparedProperties_iff registered.1 result_type] at listed
      rcases listed with listed | listed
      · rcases stored property.1 listed with listed | listed
        · exact (mem_names_comparedProperties_iff registered.1 old_type).mpr (.inl listed)
        · exact listed
      · exact (mem_names_comparedProperties_iff registered.1 old_type).mpr (.inr listed)
    obtain ⟨other, other_mem, same_name⟩ := List.mem_map.mp listed
    have same : other = property := Prod.ext same_name
      ((type_of_unregistered registered.1 old_type other_mem).trans nothing_known.symm)
    rwa [same] at other_mem

/-- Replaying the changes of a node's properties leaves nothing to report. -/
theorem compareNodes_replayed (comparators : types.ComparatorsAre RespectsEqual RespectsEqual)
    (old : Option Node) {new start : Node} (state : start.state = stateOf old)
    (named : start.typeName = (old.getD new).typeName) (names : (stateOf old).names.Nodup)
    (old_distinct : ∀ name, ((stateOf old).get name).KeysDistinct)
    (new_distinct : ∀ name, (new.state.get name).KeysDistinct) :
    ∃ result,
      (compareNodes types alignment old (some new)).foldl Change.replayNode (some start) =
        some result ∧
      compareNodes types alignment (some result) (some new) = [] := by
  rw [← state] at names
  obtain ⟨replayed_state, folded, settled, -, stored⟩ :=
    replayNode_properties alignment (nodup_comparedProperties types old (some new))
      (stateOf old) new.state new start names fun _ _ => by rw [state]
  refine ⟨_, by rw [compareNodes_eq types alignment rfl]; exact folded, ?_⟩
  rw [state] at stored
  have compared :
      comparedProperties types (some { start with state := replayed_state }) (some new) ⊆
        comparedProperties types old (some new) :=
    comparedProperties_replayed named stored
  rw [compareNodes_eq types alignment rfl]
  apply List.filterMap_eq_nil_iff.mpr
  intro property member
  have are := comparedProperties_comparatorsAre comparators (compared member)
  rw [propertyChange, Option.map_eq_none_iff]
  change compareValues alignment property.2 (replayed_state.get property.1) _ = none
  rw [settled property (compared member)]
  exact compareValues_replayed are (old_distinct _) (new_distinct _)

end Nodes

/-- No node stores a property name twice, which holds of states set up property by property. -/
def Graph.NamesDistinct (graph : Graph) : Prop :=
  ∀ node ∈ graph.nodes.rows, node.state.names.Nodup

/-- The map-valued properties of all nodes have pairwise different keys. -/
def Graph.KeysDistinct (graph : Graph) : Prop :=
  ∀ node ∈ graph.nodes.rows, ∀ name, (node.state.get name).KeysDistinct

section Graphs

variable {types : TypeTable} {options : DiffOptions} {old new : Graph}

/-- At every id, replaying a diff on the old graph brings about the node of the new graph or its
absence, and leaves nothing to report. -/
theorem compareAt_replayed (comparators : types.ComparatorsAre RespectsEqual RespectsEqual)
    (initial : options.initialChanges = true) (names : old.NamesDistinct)
    (old_keys : old.KeysDistinct) (new_keys : new.KeysDistinct) (id : GlobalId) :
    (((Diff.between types options old new).replay old).find? id).isSome = (new.find? id).isSome ∧
      compareAt types options ((Diff.between types options old new).replay old) new id = [] := by
  have replayed := Diff.find?_replay (Diff.between types options old new) old id
  rw [filter_between] at replayed
  unfold compareAt at replayed ⊢
  cases new_found : new.find? id with
  | none =>
      have gone : ((Diff.between types options old new).replay old).find? id = none := by
        rw [replayed]
        cases old_found : old.find? id with
        | none => rw [new_found]; rfl
        | some node =>
            simp only [new_found, List.foldl_cons, Change.replayNode]
            split
            · exact replayNode_compareNodes_none _ _
            · rfl
      rw [gone]
      exact ⟨rfl, rfl⟩
  | some node =>
      have node_distinct := new_keys node (Graph.mem_rows_of_find? new_found)
      have settled : ∃ result,
          ((Diff.between types options old new).replay old).find? id = some result ∧
            compareNodes types options.alignment (some result) (some node) = [] := by
        cases old_found : old.find? id with
        | none =>
            simp only [new_found, old_found, initial, if_true, List.foldl_cons] at replayed
            rw [replayed]
            exact compareNodes_replayed comparators none rfl rfl List.nodup_nil
              (fun _ => trivial) node_distinct
        | some left =>
            have left_mem := Graph.mem_rows_of_find? old_found
            simp only [new_found, old_found] at replayed
            rw [replayed]
            exact compareNodes_replayed comparators (some left) rfl rfl
              (names left left_mem) (old_keys left left_mem) node_distinct
      obtain ⟨result, found, same⟩ := settled
      rw [found]
      exact ⟨rfl, same⟩

/-- Replaying a diff rebuilds the new graph: the result has its ids and does not differ from it. -/
theorem Diff.replay_between (comparators : types.ComparatorsAre RespectsEqual RespectsEqual)
    (initial : options.initialChanges = true) (names : old.NamesDistinct)
    (old_keys : old.KeysDistinct) (new_keys : new.KeysDistinct) :
    ((Diff.between types options old new).replay old).ids = new.ids ∧
      (Diff.between types options ((Diff.between types options old new).replay old)
        new).isEmpty := by
  have settled := compareAt_replayed comparators initial names old_keys new_keys
  exact ⟨Graph.ids_eq_of_isSome_eq fun id => (settled id).1,
    isEmpty_between_iff.mpr fun id => (settled id).2⟩

/-- An amount that only a coarse comparator equates stays, and other changes are replayed. -/
theorem Diff.replay_between_coarse :
    let types : TypeTable :=
      { managed := [⟨"Cart", "Cart", .valueObject, none,
          [⟨"counts", .map (.named "string") (.named "amount")⟩]⟩]
        values := [("amount", some ⟨fun _ _ => true, Scalar.display⟩)]
        customs := []
        ignored := [] }
    let options : DiffOptions := ⟨.shortest, true, false⟩
    let cart (entries : List (Captured × Captured)) : Graph :=
      .ofNodes [] [⟨.unbounded "Cart", "Cart", .ofList [("counts", .map entries)]⟩]
    let old := cart [(.scalar (.text "a"), .scalar (.int 1)), (.scalar (.text "b"), .null)]
    let new := cart [(.scalar (.text "c"), .null), (.scalar (.text "a"), .scalar (.int 2))]
    (types.ComparatorsAre RespectsEqual RespectsEqual ∧ options.initialChanges = true ∧
      old.NamesDistinct ∧ old.KeysDistinct ∧ new.KeysDistinct) ∧
    ((Diff.between types options old new).replay old).ids = new.ids ∧
      (Diff.between types options ((Diff.between types options old new).replay old)
        new).isEmpty := by
  intro types options cart old new
  have comparators : types.ComparatorsAre RespectsEqual RespectsEqual :=
    ⟨by simp +contextual [types]; exact ⟨fun _ _ _ => rfl, fun _ _ _ _ _ _ => rfl⟩, by simp [types]⟩
  have names : old.NamesDistinct := by
    rintro node member
    fin_cases member
    decide
  have old_keys : old.KeysDistinct := by
    rintro node member
    fin_cases member
    exact State.keysDistinct_get (by decide)
  have new_keys : new.KeysDistinct := by
    rintro node member
    fin_cases member
    exact State.keysDistinct_get (by decide)
  exact ⟨⟨comparators, rfl, names, old_keys, new_keys⟩,
    Diff.replay_between comparators rfl names old_keys new_keys⟩

end Graphs

end AuditTrail
