import AuditTrail.Diff.Comparison
import AuditTrail.Proofs.Edit.Script
import AuditTrail.Proofs.Graph

/-!
# What a comparison reports

Containers count as the same under simple conditions on their elements, and a value never differs
from itself.  The properties to compare are listed without repetition, and a diff holds for each id
exactly the changes found there.
-/

namespace AuditTrail

open Schema

/-- The keys of a map are pairwise different.  Other values have no keys. -/
def Value.KeysDistinct : Captured → Prop
  | .map entries => entries.Pairwise fun first second => ¬ first.1 == second.1
  | _ => True

instance : DecidablePred Value.KeysDistinct
  | .map entries =>
    inferInstanceAs (Decidable (entries.Pairwise fun first second => ¬ first.1 == second.1))
  | .null | .scalar _ | .ref _ | .seq _ => inferInstanceAs (Decidable True)

theorem State.keysDistinct_get {state : State}
    (all : ∀ entry ∈ state.entries, entry.2.KeysDistinct) (name : String) :
    (state.get name).KeysDistinct := by
  unfold get
  split
  next found => exact all _ (List.mem_of_find?_eq_some found)
  next => trivial

namespace Comparison

section Containers

variable {item : Classified}

theorem isSome_valueAt?_iff {entries : List (Captured × Captured)} {key : Captured} :
    (valueAt? entries key).isSome ↔ ∃ entry ∈ entries, entry.1 == key := by
  simp [valueAt?]

theorem valueAt?_eq_some {entries : List (Captured × Captured)} {key value : Captured}
    (found : valueAt? entries key = some value) :
    ∃ entry ∈ entries, entry.1 == key ∧ entry.2 = value := by
  obtain ⟨entry, entry_found, value_eq⟩ := Option.map_eq_some_iff.mp found
  have matching := List.find?_some entry_found
  exact ⟨entry, List.mem_of_find?_eq_some entry_found, matching, value_eq⟩

/-- Equal keys have the same value. -/
theorem valueAt?_congr (entries : List (Captured × Captured)) {key key' : Captured}
    (keys : key == key') : valueAt? entries key = valueAt? entries key' := by
  unfold valueAt?
  congr 2
  funext entry
  rw [Bool.eq_iff_iff]
  exact ⟨fun first => BEq.trans first keys, fun second => BEq.trans second (BEq.symm keys)⟩

theorem eq_of_keys_beq {entries : List (Captured × Captured)}
    (distinct : (Value.map entries).KeysDistinct) {first second : Captured × Captured}
    (first_mem : first ∈ entries) (second_mem : second ∈ entries)
    (keys : first.1 == second.1) : first = second := by
  by_contra different
  have apart : Std.Symm fun a b : Captured × Captured => ¬ a.1 == b.1 :=
    ⟨fun _ _ unequal equal => unequal (BEq.symm equal)⟩
  exact distinct.forall first_mem second_mem different keys

theorem valueAt?_of_mem {entries : List (Captured × Captured)}
    (distinct : (Value.map entries).KeysDistinct) {entry : Captured × Captured}
    (member : entry ∈ entries) {key : Captured} (keys : entry.1 == key) :
    valueAt? entries key = some entry.2 := by
  obtain ⟨value, found⟩ :=
    Option.isSome_iff_exists.mp (isSome_valueAt?_iff.mpr ⟨entry, member, keys⟩)
  obtain ⟨other, other_mem, other_keys, other_value⟩ := valueAt?_eq_some found
  have same : other = entry :=
    eq_of_keys_beq distinct other_mem member (BEq.trans other_keys (BEq.symm keys))
  rw [found, ← other_value, same]

/-- The entries of the right map whose keys are not on the left. -/
def newEntries (left right : List (Captured × Captured)) : List (Captured × Captured) :=
  right.filter fun entry => (valueAt? left entry.1).isNone

/-- The entries of the left map whose values differ on the right. -/
def changedEntries (item : Classified) (left right : List (Captured × Captured)) :
    List EntryChange :=
  left.filterMap fun entry =>
    match valueAt? right entry.1 with
    | none => none
    | some new => if item.equal entry.2 new then none else some ⟨entry.1, entry.2, new⟩

theorem compareMaps_eq (left right : List (Captured × Captured)) :
    compareMaps item left right =
      if (newEntries left right).isEmpty && (newEntries right left).isEmpty &&
          (changedEntries item left right).isEmpty then .same
      else
        .differs (.map (sortByKey (·.1) (newEntries left right))
          (sortByKey (·.1) (newEntries right left))
          (sortByKey EntryChange.key (changedEntries item left right))) := rfl

theorem mem_newEntries_iff {left right : List (Captured × Captured)}
    {entry : Captured × Captured} :
    entry ∈ newEntries left right ↔ entry ∈ right ∧ ¬ (valueAt? left entry.1).isSome := by
  simp [newEntries]

theorem mem_changedEntries_iff {left right : List (Captured × Captured)} {change : EntryChange} :
    change ∈ changedEntries item left right ↔
      (change.key, change.old) ∈ left ∧ valueAt? right change.key = some change.new ∧
        ¬ item.equal change.old change.new := by
  obtain ⟨key, old, new⟩ := change
  simp only [changedEntries, List.mem_filterMap]
  constructor
  · rintro ⟨entry, entry_mem, reported⟩
    cases found : valueAt? right entry.1 with
    | none => simp [found] at reported
    | some value =>
        simp only [found, Option.ite_none_left_eq_some, Option.some.injEq,
          EntryChange.mk.injEq] at reported
        obtain ⟨different, rfl, rfl, rfl⟩ := reported
        exact ⟨entry_mem, found, different⟩
  · rintro ⟨entry_mem, found, different⟩
    refine ⟨_, entry_mem, ?_⟩
    simp only [found, if_neg different]

theorem mem_sortByKey {α : Type} {key : α → Captured} {items : List α} {item : α} :
    item ∈ sortByKey key items ↔ item ∈ items :=
  List.mem_mergeSort

theorem ofEdits_eq_same_iff {wrap : List Edit → Delta} {edits : List Edit} :
    ofEdits wrap edits = .same ↔ edits = [] := by
  unfold ofEdits
  split
  next none => simpa using none
  next some => simpa using some

theorem eq_wrap_of_ofEdits {wrap : List Edit → Delta} {edits : List Edit} {delta : Delta}
    (differs : ofEdits wrap edits = .differs delta) : delta = wrap edits := by
  unfold ofEdits at differs
  split at differs
  next => cases differs
  next => exact (Outcome.differs.inj differs).symm

/-- Sets are the same when each element matches one on the other side. -/
theorem compareSets_eq_same_iff {left right : List Captured} :
    compareSets item left right = .same ↔
      (∀ r ∈ right, ∃ l ∈ left, item.equal l r) ∧ ∀ l ∈ left, ∃ r ∈ right, item.equal l r := by
  simp only [compareSets]
  split
  next none =>
    simpa [List.filter_eq_nil_iff] using none
  next some =>
    simpa [List.filter_eq_nil_iff] using some

/-- Maps are the same when each key is on the other side, and with a matching value. -/
theorem compareMaps_eq_same_iff {left right : List (Captured × Captured)} :
    compareMaps item left right = .same ↔
      (∀ entry ∈ right, (valueAt? left entry.1).isSome) ∧
        ∀ entry ∈ left, ∃ new, valueAt? right entry.1 = some new ∧ item.equal entry.2 new := by
  have nothing_new (left right : List (Captured × Captured)) :
      newEntries left right = [] ↔ ∀ entry ∈ right, (valueAt? left entry.1).isSome := by
    simp only [List.eq_nil_iff_forall_not_mem, mem_newEntries_iff, not_and, not_not]
  have nothing_changed : changedEntries item left right = [] ↔
      ∀ entry ∈ left, ∀ new, valueAt? right entry.1 = some new → item.equal entry.2 new := by
    simp only [List.eq_nil_iff_forall_not_mem, mem_changedEntries_iff, not_and, not_not]
    exact ⟨fun none entry entry_mem new found => none ⟨entry.1, entry.2, new⟩ entry_mem found,
      fun all change entry_mem found => all _ entry_mem _ found⟩
  rw [compareMaps_eq]
  split
  next none =>
    simp only [Bool.and_eq_true, List.isEmpty_iff, nothing_new, nothing_changed] at none
    obtain ⟨⟨in_left, in_right⟩, equal⟩ := none
    refine ⟨fun _ => ⟨in_left, fun entry entry_mem => ?_⟩, fun _ => rfl⟩
    obtain ⟨new, found⟩ := Option.isSome_iff_exists.mp (in_right entry entry_mem)
    exact ⟨new, found, equal entry entry_mem new found⟩
  next some =>
    simp only [Bool.and_eq_true, List.isEmpty_iff, nothing_new, nothing_changed] at some
    refine ⟨fun same => (nomatch same), fun ⟨in_left, matched⟩ => absurd ⟨⟨in_left, ?_⟩, ?_⟩ some⟩
    · intro entry entry_mem
      obtain ⟨new, found, -⟩ := matched entry entry_mem
      exact Option.isSome_iff_exists.mpr ⟨new, found⟩
    · intro entry entry_mem new found
      obtain ⟨other, other_found, equal⟩ := matched entry entry_mem
      rw [found, Option.some.injEq] at other_found
      rwa [other_found]

end Containers

section Self

variable {type : Classified}

theorem compareContainers_self (are : type.ComparatorsAre PassesEqual PassesEqual)
    (alignment : Alignment) {value : Captured} (distinct : value.KeysDistinct) :
    compareContainers alignment type value value = .mismatch ∨
      compareContainers alignment type value value = .same := by
  cases type with
  | value | reference | custom | ignored | unknown => exact .inl rfl
  | collection kind item =>
      have item_are : item.ComparatorsAre PassesEqual PassesEqual := are
      cases found : value.elements? with
      | none => exact .inl (by simp only [compareContainers, found])
      | some items =>
          have self (element : Captured) : item.equal element element :=
            Classified.equal_self item_are element
          have matching : List.Forall₂ (fun l r => item.equal l r) items items :=
            List.forall₂_same.mpr fun element _ => self element
          apply Or.inr
          simp only [compareContainers, found]
          cases kind with
          | list | array => exact ofEdits_eq_same_iff.mpr (Alignment.script_of_matching _ matching)
          | set =>
              exact compareSets_eq_same_iff.mpr ⟨fun r r_mem => ⟨r, r_mem, self r⟩,
                fun l l_mem => ⟨l, l_mem, self l⟩⟩
  | mapping key item =>
      have item_are : item.ComparatorsAre PassesEqual PassesEqual := are
      cases found : value.entries? with
      | none => exact .inl (by simp only [compareContainers, found])
      | some entries =>
          have entries_distinct : (Value.map entries).KeysDistinct := by
            cases value <;> simp only [Value.entries?, Option.some.injEq, reduceCtorEq] at found
            case null => rw [← found]; exact List.Pairwise.nil
            case map => rwa [← found]
          apply Or.inr
          simp only [compareContainers, found]
          refine compareMaps_eq_same_iff.mpr ⟨fun entry entry_mem => ?_, fun entry entry_mem => ?_⟩
          · exact isSome_valueAt?_iff.mpr ⟨entry, entry_mem, BEq.rfl⟩
          · exact ⟨entry.2, valueAt?_of_mem entries_distinct entry_mem BEq.rfl,
              Classified.equal_self item_are entry.2⟩

theorem compareLeaves_self (are : type.ComparatorsAre PassesEqual PassesEqual)
    (value : Captured) : compareLeaves type value value = none := by
  rw [compareLeaves, if_pos (Classified.equal_self are value)]

theorem compareShaped_self {shape : Classified} (alignment : Alignment)
    (shape_are : shape.ComparatorsAre PassesEqual PassesEqual)
    (are : type.ComparatorsAre PassesEqual PassesEqual) {value : Captured}
    (distinct : value.KeysDistinct) :
    compareShaped alignment shape type value value = none := by
  rcases compareContainers_self shape_are alignment distinct with mismatch | same
  · rw [compareShaped, mismatch]
    exact compareLeaves_self are value
  · rw [compareShaped, same]

theorem inferred?_comparatorsAre {onScalars : (Scalar → Scalar → Bool) → Prop}
    {onValues : (Captured → Captured → Bool) → Prop} {left right : Captured}
    {shape : Classified} (found : inferred? left right = some shape) :
    shape.ComparatorsAre onScalars onValues := by
  unfold inferred? at found
  split at found <;> cases found <;> trivial

/-- A value does not differ from itself. -/
theorem compareValues_self (are : type.ComparatorsAre PassesEqual PassesEqual)
    (alignment : Alignment) {value : Captured} (distinct : value.KeysDistinct) :
    compareValues alignment type value value = none := by
  cases type with
  | ignored => rfl
  | custom rule => rw [compareValues, if_pos (are value value BEq.rfl)]
  | collection | mapping => exact compareShaped_self alignment are are distinct
  | value | reference => exact compareLeaves_self are value
  | unknown name =>
      rw [compareValues]
      split
      next shape found =>
        exact compareShaped_self alignment (inferred?_comparatorsAre found) are distinct
      next => exact compareLeaves_self are value

end Self

section Properties

variable {types : TypeTable} {known more : List (String × Classified)}

theorem addNew_nil (known : List (String × Classified)) : addNew known [] = known := rfl

theorem addNew_cons (known : List (String × Classified)) (property : String × Classified)
    (more : List (String × Classified)) :
    addNew known (property :: more) =
      addNew (if property.1 ∈ known.map (·.1) then known else known ++ [property]) more := by
  have any_iff : (known.any fun other => other.1 == property.1) = true ↔
      property.1 ∈ known.map (·.1) := by
    simp only [List.any_eq_true, beq_iff_eq, List.mem_map]
  rw [addNew, List.foldl_cons]
  simp only [any_iff]
  rfl

theorem mem_of_mem_addNew {property : String × Classified} (member : property ∈ addNew known more) :
    property ∈ known ∨ property ∈ more := by
  induction more generalizing known with
  | nil => exact .inl member
  | cons head more induction =>
      rw [addNew_cons] at member
      rcases induction member with member | member
      · split at member
        next => exact .inl member
        next =>
          rw [List.mem_append, List.mem_singleton] at member
          rcases member with member | rfl
          · exact .inl member
          · exact .inr List.mem_cons_self
      · exact .inr (List.mem_cons_of_mem _ member)

theorem mem_names_addNew_iff {name : String} :
    name ∈ (addNew known more).map (·.1) ↔ name ∈ known.map (·.1) ∨ name ∈ more.map (·.1) := by
  induction more generalizing known with
  | nil => simp [addNew_nil]
  | cons head more induction =>
      rw [addNew_cons, induction, List.map_cons, List.mem_cons]
      split
      next already =>
        constructor
        · exact Or.imp id .inr
        · rintro (old | rfl | new)
          exacts [.inl old, .inl already, .inr new]
      next =>
        rw [List.map_append, List.mem_append, List.map_singleton, List.mem_singleton, or_assoc]

theorem nodup_names_addNew (distinct : (known.map (·.1)).Nodup) :
    ((addNew known more).map (·.1)).Nodup := by
  induction more generalizing known with
  | nil => exact distinct
  | cons head more induction =>
      rw [addNew_cons]
      apply induction
      split
      next => exact distinct
      next fresh =>
        rw [List.map_append, List.nodup_append']
        exact ⟨distinct, List.nodup_singleton _, by simpa using fresh⟩

/-- Nothing is appended if every name is there already. -/
theorem addNew_of_known (all : ∀ property ∈ more, property.1 ∈ known.map (·.1)) :
    addNew known more = known := by
  induction more with
  | nil => rfl
  | cons head more induction =>
      rw [addNew_cons, if_pos (all head List.mem_cons_self)]
      exact induction fun property member => all property (List.mem_cons_of_mem _ member)

theorem comparedProperties_unregistered {old new : Option Node}
    (new_type : typeOf? types new = none) (old_type : typeOf? types old = none) :
    comparedProperties types old new =
      addNew (addNew [] ((old.map stored).getD [])) ((new.map stored).getD []) := by
  rw [comparedProperties, new_type, old_type]
  rfl

theorem comparedProperties_registered {old new : Option Node}
    (registered : typeOf? types new ≠ none ∨ typeOf? types old ≠ none) :
    comparedProperties types old new =
      addNew (addNew [] (((typeOf? types new).map (declared types)).getD []))
        (((typeOf? types old).map (declared types)).getD []) := by
  unfold comparedProperties
  split
  next new_type old_type => exact absurd registered (by simp [new_type, old_type])
  next => rfl

theorem nodup_comparedProperties (types : TypeTable) (old new : Option Node) :
    ((comparedProperties types old new).map (·.1)).Nodup := by
  by_cases registered : typeOf? types new ≠ none ∨ typeOf? types old ≠ none
  · rw [comparedProperties_registered registered]
    exact nodup_names_addNew (nodup_names_addNew List.nodup_nil)
  · rw [not_or, not_not, not_not] at registered
    rw [comparedProperties_unregistered registered.1 registered.2]
    exact nodup_names_addNew (nodup_names_addNew List.nodup_nil)

/-- What holds of all registered comparators holds within the type of every compared property. -/
theorem comparedProperties_comparatorsAre {onScalars : (Scalar → Scalar → Bool) → Prop}
    {onValues : (Captured → Captured → Bool) → Prop}
    (are : types.ComparatorsAre onScalars onValues) {old new : Option Node}
    {property : String × Classified} (member : property ∈ comparedProperties types old new) :
    property.2.ComparatorsAre onScalars onValues := by
  have of_stored (node : Option Node) (member : property ∈ (node.map stored).getD []) :
      property.2.ComparatorsAre onScalars onValues := by
    cases node with
    | none => cases member
    | some node =>
        obtain ⟨name, -, rfl⟩ := List.mem_map.mp member
        trivial
  have of_declared (managed : Option ManagedType)
      (member : property ∈ (managed.map (declared types)).getD []) :
      property.2.ComparatorsAre onScalars onValues := by
    cases managed with
    | none => cases member
    | some managed =>
        obtain ⟨property, -, rfl⟩ := List.mem_map.mp member
        exact TypeTable.classify_comparatorsAre are property.type
  by_cases registered : typeOf? types new ≠ none ∨ typeOf? types old ≠ none
  · rw [comparedProperties_registered registered] at member
    rcases mem_of_mem_addNew member with member | member
    · exact of_declared _ ((mem_of_mem_addNew member).resolve_left List.not_mem_nil)
    · exact of_declared _ member
  · rw [not_or, not_not, not_not] at registered
    rw [comparedProperties_unregistered registered.1 registered.2] at member
    rcases mem_of_mem_addNew member with member | member
    · exact of_stored _ ((mem_of_mem_addNew member).resolve_left List.not_mem_nil)
    · exact of_stored _ member

end Properties

section Changes

/-- The change of one property of a pair of states, if it differs; it is reported for `node`. -/
def propertyChange (alignment : Alignment) (old new : State) (node : Node)
    (property : String × Classified) : Option Change :=
  (compareValues alignment property.2 (old.get property.1) (new.get property.1)).map fun delta =>
    ⟨node.id, node.typeName, .property property.1 delta⟩

theorem compareNodes_eq (types : TypeTable) (alignment : Alignment) {before after : Option Node}
    {node : Node} (picked : (after <|> before) = some node) :
    compareNodes types alignment before after =
      (comparedProperties types before after).filterMap
        (propertyChange alignment (stateOf before) (stateOf after) node) := by
  rw [compareNodes, picked]
  rfl

private theorem keys_eq_rows (table : Table (id : GlobalId → GlobalId)) :
    table.keys = table.rows := by
  rw [Table.keys, List.map_id]

theorem nodup_allIds (old new : Graph) : (allIds old new).Nodup := by
  have distinct := (Table.ofList (old.ids ++ new.ids) : Table (id : GlobalId → GlobalId)).keys_nodup
  rwa [keys_eq_rows] at distinct

variable {types : TypeTable} {options : DiffOptions} {old new : Graph} {id : GlobalId}

theorem mem_allIds_iff : id ∈ allIds old new ↔ id ∈ old.ids ∨ id ∈ new.ids := by
  rw [allIds, ← keys_eq_rows, Table.mem_keys_ofList_iff, List.map_id, List.mem_append]

theorem allIds_comm (old new : Graph) : allIds new old = allIds old new := by
  refine Table.eq_of_increasing ?_ ?_ fun id => ?_
  · exact (Table.ofList (new.ids ++ old.ids) : Table (id : GlobalId → GlobalId)).increasing
  · exact (Table.ofList (old.ids ++ new.ids) : Table (id : GlobalId → GlobalId)).increasing
  · rw [mem_allIds_iff, mem_allIds_iff, or_comm]

theorem target_of_mem_compareNodes {alignment : Alignment} {before after : Option Node}
    {node : Node} (picked : (after <|> before) = some node) {change : Change}
    (member : change ∈ compareNodes types alignment before after) : change.target = node.id := by
  rw [compareNodes_eq types alignment picked] at member
  obtain ⟨property, -, reported⟩ := List.mem_filterMap.mp member
  obtain ⟨delta, -, rfl⟩ := Option.map_eq_some_iff.mp reported
  rfl

/-- The changes found for an id are changes of its node. -/
theorem target_of_mem_compareAt {change : Change}
    (member : change ∈ compareAt types options old new id) : change.target = id := by
  unfold compareAt at member
  split at member
  next node _ found =>
    rcases List.mem_cons.mp member with rfl | member
    · rfl
    · split at member
      next => exact (target_of_mem_compareNodes rfl member).trans (Graph.id_of_find? found)
      next => cases member
  next node found _ =>
    rcases List.mem_cons.mp member with rfl | member
    · rfl
    · split at member
      next => exact (target_of_mem_compareNodes rfl member).trans (Graph.id_of_find? found)
      next => cases member
  next left right _ found =>
    exact (target_of_mem_compareNodes rfl member).trans (Graph.id_of_find? found)
  next => cases member

theorem compareAt_of_absent (absent : id ∉ allIds old new) :
    compareAt types options old new id = [] := by
  simp only [mem_allIds_iff, Graph.mem_ids_iff, not_or, Bool.not_eq_true,
    Option.isSome_eq_false_iff, Option.isNone_iff_eq_none] at absent
  simp only [compareAt, absent.1, absent.2]

private theorem filter_flatMap_target {changesOf : GlobalId → List Change}
    (targets : ∀ id, ∀ change ∈ changesOf id, change.target = id) {ids : List GlobalId}
    (distinct : ids.Nodup) (id : GlobalId) :
    (ids.flatMap changesOf).filter (·.target = id) = if id ∈ ids then changesOf id else [] := by
  induction ids with
  | nil => rfl
  | cons head ids induction =>
      obtain ⟨fresh, rest_distinct⟩ := List.nodup_cons.mp distinct
      rw [List.flatMap_cons, List.filter_append, induction rest_distinct]
      by_cases same : id = head
      · subst same
        rw [if_neg fresh, if_pos List.mem_cons_self, List.append_nil, List.filter_eq_self]
        exact fun change member => decide_eq_true (targets id change member)
      · have others : (changesOf head).filter (·.target = id) = [] := by
          rw [List.filter_eq_nil_iff]
          intro change member
          rw [targets head change member, decide_eq_true_eq]
          exact Ne.symm same
        simp only [others, List.nil_append, List.mem_cons, same, false_or]

/-- A diff holds for each id the changes found there, and no others. -/
theorem filter_between (types : TypeTable) (options : DiffOptions) (old new : Graph)
    (id : GlobalId) :
    (Diff.between types options old new).changes.filter (·.target = id) =
      compareAt types options old new id := by
  have targets (id : GlobalId) (change : Change)
      (member : change ∈ compareAt types options old new id) : change.target = id :=
    target_of_mem_compareAt member
  rw [Diff.between, filter_flatMap_target targets (nodup_allIds old new)]
  split
  next => rfl
  next absent => rw [compareAt_of_absent absent]

/-- Nothing changed if nothing changed at any id. -/
theorem isEmpty_between_iff :
    (Diff.between types options old new).isEmpty ↔
      ∀ id, compareAt types options old new id = [] := by
  rw [Diff.isEmpty, List.isEmpty_iff]
  constructor
  · intro none id
    rw [← filter_between, none, List.filter_nil]
  · intro none
    exact List.flatMap_eq_nil_iff.mpr fun id _ => none id

end Changes

end Comparison
end AuditTrail
