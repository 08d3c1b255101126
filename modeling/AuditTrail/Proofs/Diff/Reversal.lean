import AuditTrail.Proofs.Diff.Comparison
import AuditTrail.Proofs.Diff.Equality

/-!
# Reversing a diff

Comparing two graphs the other way round gives the inverted diff, change by change and in the same
order.  This needs comparators that do not mind the sides, and maps whose keys are told apart by
their printed forms, since the entries of a map are reported in the order of these.
-/

namespace AuditTrail

open Schema Comparison

/-- The keys of a map are printed differently.  Other values have no keys. -/
def Value.PrintedKeysDistinct : Captured → Prop
  | .map entries => entries.Pairwise fun first second => first.1.display ≠ second.1.display
  | _ => True

instance : DecidablePred Value.PrintedKeysDistinct
  | .map entries =>
    inferInstanceAs
      (Decidable (entries.Pairwise fun first second => first.1.display ≠ second.1.display))
  | .null | .scalar _ | .ref _ | .seq _ => inferInstanceAs (Decidable True)

theorem Value.PrintedKeysDistinct.keysDistinct {value : Captured}
    (distinct : value.PrintedKeysDistinct) : value.KeysDistinct := by
  cases value with
  | map entries => exact List.Pairwise.imp (fun printed equal =>
      printed (Value.display_eq_of_beq equal)) distinct
  | null | scalar | ref | seq => trivial

theorem State.printedKeysDistinct_get {state : State}
    (all : ∀ entry ∈ state.entries, entry.2.PrintedKeysDistinct) (name : String) :
    (state.get name).PrintedKeysDistinct := by
  unfold get
  split
  next found => exact all _ (List.mem_of_find?_eq_some found)
  next => trivial

/-- No position falls short when the edits of a delta are inverted. -/
def Delta.Inverts : Delta → Prop
  | .list edits | .array edits => Edit.Inverts edits
  | _ => True

/-- No position falls short when a change is inverted. -/
def Change.Inverts (change : Change) : Prop :=
  match change.kind with
  | .property _ delta => delta.Inverts
  | _ => True

section Maps

variable {item : Classified} {left right : List (Captured × Captured)}

/-- A sorted list without keys that are printed alike is sorted strictly. -/
theorem sortByKey_increasing {α : Type} {key : α → Captured} {items : List α}
    (distinct : items.Pairwise fun first second => (key first).display ≠ (key second).display) :
    ((sortByKey key items).map fun item => (key item).display).Pairwise
      fun first second => compare first second = .lt := by
  have sorted : (sortByKey key items).Pairwise
      fun a b => (compare (key a).display (key b).display).isLE := List.pairwise_mergeSort
    (fun _ _ _ => Std.TransCmp.isLE_trans)
    (fun a b => by
      rw [Bool.or_eq_true, ← Std.OrientedCmp.isGE_iff_isLE (a := (key a).display)]
      cases compare (key a).display (key b).display <;> simp) items
  have apart : (sortByKey key items).Pairwise
      fun first second => (key first).display ≠ (key second).display :=
    (List.mergeSort_perm items _).symm.pairwise distinct fun unequal => Ne.symm unequal
  refine List.pairwise_map.mpr ((sorted.and apart).imp fun ⟨below, unequal⟩ => ?_)
  refine (Ordering.isLE_iff_eq_lt_or_eq_eq.mp below).resolve_right fun same => unequal ?_
  exact Std.LawfulEqCmp.eq_of_compare same

/-- Lists that are sorted strictly by what their elements are printed like correspond one by one,
if each element of one has a counterpart on the other side that is printed alike. -/
theorem forall₂_of_increasing {α β : Type} {related : α → β → Prop} {print : α → String}
    {print' : β → String} {first : List α} {second : List β}
    (first_increasing : (first.map print).Pairwise fun a b => compare a b = .lt)
    (second_increasing : (second.map print').Pairwise fun a b => compare a b = .lt)
    (onto : ∀ a ∈ first, ∃ b ∈ second, print' b = print a ∧ related a b)
    (back : ∀ b ∈ second, ∃ a ∈ first, print a = print' b) :
    List.Forall₂ related first second := by
  have prints : first.map print = second.map print' := by
    apply Table.eq_of_increasing first_increasing second_increasing
    intro text
    simp only [List.mem_map]
    constructor
    · rintro ⟨a, a_mem, rfl⟩
      obtain ⟨b, b_mem, same, -⟩ := onto a a_mem
      exact ⟨b, b_mem, same⟩
    · rintro ⟨b, b_mem, rfl⟩
      exact back b b_mem
  have aligned : List.Forall₂ (· = ·) (first.map print) (second.map print') := by
    rw [prints]
    exact List.forall₂_refl _
  rw [List.forall₂_map_left_iff, List.forall₂_map_right_iff] at aligned
  refine List.forall₂_iff_zip.mpr ⟨aligned.length_eq, fun {a b} pair => ?_⟩
  obtain ⟨a_mem, b_mem⟩ := List.of_mem_zip pair
  obtain ⟨counterpart, counterpart_mem, same, holds⟩ := onto a a_mem
  have nodup : (second.map print').Nodup := second_increasing.imp Table.ne_of_lt
  have unique : counterpart = b :=
    List.inj_on_of_nodup_map nodup counterpart_mem b_mem
      (same.trans (List.forall₂_zip aligned pair))
  rwa [← unique]

theorem printedKeys_changedEntries (distinct : (Value.map left).PrintedKeysDistinct) :
    (changedEntries item left right).Pairwise
      fun first second => first.key.display ≠ second.key.display := by
  refine List.Pairwise.filterMap _ (fun entry other apart change reported later reported' => ?_)
    distinct
  split at reported
  next => cases reported
  next =>
    split at reported'
    next => cases reported'
    next =>
      simp only [Option.ite_none_left_eq_some, Option.some.injEq] at reported reported'
      rwa [← reported.2, ← reported'.2]

/-- A changed entry is reported the other way round when the sides are swapped. -/
theorem exists_changedEntries_swap (are : item.ComparatorsAre MirrorsEqual MirrorsEqual)
    (left_distinct : (Value.map left).KeysDistinct) {change : EntryChange}
    (member : change ∈ changedEntries item left right) :
    ∃ swapped ∈ changedEntries item right left,
      swapped.key.display = change.key.display ∧ change.inverse == swapped := by
  obtain ⟨old_mem, new_found, different⟩ := mem_changedEntries_iff.mp member
  obtain ⟨⟨key, new⟩, entry_mem, keys, rfl⟩ := valueAt?_eq_some new_found
  refine ⟨⟨key, change.new, change.old⟩, mem_changedEntries_iff.mpr ⟨entry_mem, ?_, ?_⟩,
    Value.display_eq_of_beq keys, EntryChange.beq_iff.mpr ⟨BEq.symm keys, BEq.rfl, BEq.rfl⟩⟩
  · exact valueAt?_of_mem left_distinct old_mem (BEq.symm keys)
  · rwa [Classified.equal_comm are]

/-- The changed entries in the order of their printed keys are inverted one by one. -/
theorem changedEntries_swap (are : item.ComparatorsAre MirrorsEqual MirrorsEqual)
    (left_distinct : (Value.map left).PrintedKeysDistinct)
    (right_distinct : (Value.map right).PrintedKeysDistinct) :
    List.Forall₂ (fun change swapped : EntryChange => change.inverse == swapped)
      (sortByKey EntryChange.key (changedEntries item left right))
      (sortByKey EntryChange.key (changedEntries item right left)) := by
  refine forall₂_of_increasing (sortByKey_increasing (printedKeys_changedEntries left_distinct))
    (sortByKey_increasing (printedKeys_changedEntries right_distinct))
    (fun change member => ?_) fun change member => ?_
  · rw [mem_sortByKey] at member
    obtain ⟨swapped, swapped_mem, printed, inverted⟩ :=
      exists_changedEntries_swap are left_distinct.keysDistinct member
    exact ⟨swapped, mem_sortByKey.mpr swapped_mem, printed, inverted⟩
  · rw [mem_sortByKey] at member
    obtain ⟨swapped, swapped_mem, printed, -⟩ :=
      exists_changedEntries_swap are right_distinct.keysDistinct member
    exact ⟨swapped, mem_sortByKey.mpr swapped_mem, printed⟩

end Maps

namespace Comparison

/-- The outcome of the opposite comparison. -/
def Outcome.Mirrors : Outcome → Outcome → Prop
  | mismatch, mismatch | same, same => True
  | differs delta, differs delta' => delta.inverse == delta'
  | _, _ => False

section Containers

variable {alignment : Alignment} {item type : Classified}

theorem mirrors_ofEdits {wrap : List Edit → Delta}
    (inverse : ∀ edits, (wrap edits).inverse = wrap (Edit.invert edits)) (edits : List Edit) :
    (ofEdits wrap edits).Mirrors (ofEdits wrap (Edit.invert edits)) := by
  cases edits with
  | nil => trivial
  | cons edit rest =>
      have some_edits : (Edit.invert (edit :: rest)).isEmpty = false := by
        cases edit <;> rfl
      simp only [ofEdits, some_edits, List.isEmpty_cons, Bool.false_eq_true, if_false]
      rw [Outcome.Mirrors, inverse]
      exact BEq.rfl

theorem compareSets_mirrors (are : item.ComparatorsAre MirrorsEqual MirrorsEqual)
    (left right : List Captured) :
    (compareSets item left right).Mirrors (compareSets item right left) := by
  have swapped (first second : List Captured) :
      (second.filter fun r => !first.any fun l => item.equal l r) =
        second.filter fun r => !first.any fun l => item.equal r l := by
    simp only [Classified.equal_comm are]
  simp only [compareSets]
  rw [swapped right left, ← swapped left right, Bool.and_comm]
  split
  next => trivial
  next => exact BEq.rfl

theorem compareMaps_mirrors (are : item.ComparatorsAre MirrorsEqual MirrorsEqual)
    {left right : List (Captured × Captured)} (left_distinct : (Value.map left).PrintedKeysDistinct)
    (right_distinct : (Value.map right).PrintedKeysDistinct) :
    (compareMaps item left right).Mirrors (compareMaps item right left) := by
  have swapped := changedEntries_swap are left_distinct right_distinct
  have counts : (changedEntries item left right).isEmpty =
      (changedEntries item right left).isEmpty := by
    have lengths := swapped.length_eq
    simp only [sortByKey, List.length_mergeSort] at lengths
    rw [Bool.eq_iff_iff, List.isEmpty_iff, List.isEmpty_iff, ← List.length_eq_zero_iff, lengths,
      List.length_eq_zero_iff]
  rw [compareMaps_eq, compareMaps_eq, counts, Bool.and_comm (newEntries left right).isEmpty]
  split
  next => trivial
  next =>
    have inverted := beq_iff_forall₂.mpr (List.forall₂_map_left_iff.mpr swapped)
    change Delta.same _ _ = true
    simp only [Delta.inverse, Delta.same, BEq.rfl, Bool.true_and]
    exact inverted

theorem printedKeysDistinct_of_entries? {value : Captured} (distinct : value.PrintedKeysDistinct)
    {entries : List (Captured × Captured)} (found : value.entries? = some entries) :
    (Value.map entries).PrintedKeysDistinct := by
  cases value <;> simp only [Value.entries?, Option.some.injEq, reduceCtorEq] at found
  case null => rw [← found]; exact List.Pairwise.nil
  case map => rwa [← found]

/-- The outcome for two containers the other way round is the inverted outcome. -/
theorem compareContainers_mirrors (alignment : Alignment)
    (are : type.ComparatorsAre MirrorsEqual MirrorsEqual)
    {left right : Captured} (left_distinct : left.PrintedKeysDistinct)
    (right_distinct : right.PrintedKeysDistinct) :
    (compareContainers alignment type left right).Mirrors
      (compareContainers alignment type right left) := by
  cases type with
  | value | reference | custom | ignored | unknown => trivial
  | collection kind item =>
      have item_are : item.ComparatorsAre MirrorsEqual MirrorsEqual := are
      simp only [compareContainers]
      cases left.elements? with
      | none => cases right.elements? <;> trivial
      | some lefts =>
          cases right.elements? with
          | none => trivial
          | some rights =>
              have inverted (alignment : Alignment) := Alignment.invert_script
                (Classified.mirrorsEqual_equal item_are) alignment lefts rights
              cases kind with
              | list =>
                  simp only [compareCollections, ← inverted alignment]
                  exact mirrors_ofEdits (fun _ => rfl) _
              | array =>
                  simp only [compareCollections, ← inverted .positional]
                  exact mirrors_ofEdits (fun _ => rfl) _
              | set => exact compareSets_mirrors item_are lefts rights
  | mapping key item =>
      have item_are : item.ComparatorsAre MirrorsEqual MirrorsEqual := are
      simp only [compareContainers]
      cases left_entries : left.entries? with
      | none => cases right.entries? <;> trivial
      | some lefts =>
          cases right_entries : right.entries? with
          | none => trivial
          | some rights =>
              exact compareMaps_mirrors item_are
                (printedKeysDistinct_of_entries? left_distinct left_entries)
                (printedKeysDistinct_of_entries? right_distinct right_entries)

end Containers

section Values

variable {alignment : Alignment} {type : Classified} {left right : Captured}

theorem compareLeaves_swap (are : type.ComparatorsAre MirrorsEqual MirrorsEqual)
    (left right : Captured) :
    (compareLeaves type left right).map Delta.inverse = compareLeaves type right left := by
  unfold compareLeaves
  rw [Classified.equal_comm are right left, Bool.and_comm (isEdge right)]
  split
  next => rfl
  next => split <;> rfl

theorem compareShaped_swap {shape : Classified}
    (shape_are : shape.ComparatorsAre MirrorsEqual MirrorsEqual)
    (are : type.ComparatorsAre MirrorsEqual MirrorsEqual)
    (left_distinct : left.PrintedKeysDistinct) (right_distinct : right.PrintedKeysDistinct) :
    (compareShaped alignment shape type left right).map Delta.inverse ==
      compareShaped alignment shape type right left := by
  have mirrors := compareContainers_mirrors alignment shape_are left_distinct right_distinct
  unfold compareShaped
  cases forth : compareContainers alignment shape left right <;>
    cases back : compareContainers alignment shape right left <;>
    rw [forth, back] at mirrors <;> try exact mirrors.elim
  case mismatch.mismatch => rw [compareLeaves_swap are]; exact BEq.rfl
  case same.same => rfl
  case differs.differs delta delta' => exact mirrors

theorem inferred?_comm (left right : Captured) : inferred? right left = inferred? left right := by
  cases left <;> cases right <;> rfl

/-- The difference of two values the other way round is the inverted difference. -/
theorem compareValues_swap (alignment : Alignment)
    (are : type.ComparatorsAre MirrorsEqual MirrorsEqual)
    (left_distinct : left.PrintedKeysDistinct) (right_distinct : right.PrintedKeysDistinct) :
    (compareValues alignment type left right).map Delta.inverse ==
      compareValues alignment type right left := by
  cases type with
  | ignored => rfl
  | custom rule =>
      have symm : rule left right = rule right left := are.symm left right
      simp only [compareValues, symm]
      split
      next => rfl
      next => exact BEq.rfl
  | collection | mapping => exact compareShaped_swap are are left_distinct right_distinct
  | value | reference =>
      simp only [compareValues]
      rw [compareLeaves_swap are]
      exact BEq.rfl
  | unknown name =>
      simp only [compareValues]
      rw [inferred?_comm left right]
      split
      next shape found =>
        exact compareShaped_swap (inferred?_comparatorsAre found) are left_distinct right_distinct
      next =>
        rw [compareLeaves_swap are]
        exact BEq.rfl

theorem inverts_of_ofEdits {equal : Captured → Captured → Bool} {lefts rights : List Captured}
    {wrap : List Edit → Delta} (inverts : ∀ edits, Edit.Inverts edits → (wrap edits).Inverts)
    {delta : Delta}
    (differs : ofEdits wrap (alignment.script equal lefts rights) = .differs delta) :
    delta.Inverts := by
  rw [eq_wrap_of_ofEdits differs]
  exact inverts _ (Alignment.inverts_script alignment lefts rights)

theorem inverts_of_compareContainers {delta : Delta}
    (differs : compareContainers alignment type left right = .differs delta) : delta.Inverts := by
  cases type with
  | value | reference | custom | ignored | unknown => cases differs
  | collection kind item =>
      simp only [compareContainers] at differs
      split at differs
      next lefts rights _ _ =>
        cases kind with
        | list => exact inverts_of_ofEdits (fun _ => id) differs
        | array => exact inverts_of_ofEdits (fun _ => id) differs
        | set =>
            simp only [compareCollections, compareSets] at differs
            split at differs
            next => cases differs
            next => cases differs; trivial
      next => cases differs
  | mapping key item =>
      simp only [compareContainers] at differs
      split at differs
      next =>
        rw [compareMaps_eq] at differs
        split at differs
        next => cases differs
        next => cases differs; trivial
      next => cases differs

theorem inverts_of_compareLeaves {delta : Delta}
    (reported : compareLeaves type left right = some delta) : delta.Inverts := by
  unfold compareLeaves at reported
  split at reported
  next => cases reported
  next => split at reported <;> cases reported <;> trivial

theorem inverts_of_compareShaped {shape : Classified} {delta : Delta}
    (reported : compareShaped alignment shape type left right = some delta) : delta.Inverts := by
  unfold compareShaped at reported
  split at reported
  next differs =>
    injection reported with delta_eq
    rw [← delta_eq]
    exact inverts_of_compareContainers differs
  next => cases reported
  next => exact inverts_of_compareLeaves reported

/-- No position falls short when a reported difference is inverted. -/
theorem inverts_of_compareValues {delta : Delta}
    (reported : compareValues alignment type left right = some delta) : delta.Inverts := by
  cases type with
  | ignored => cases reported
  | custom rule =>
      simp only [compareValues] at reported
      split at reported <;> cases reported
      trivial
  | collection | mapping => exact inverts_of_compareShaped reported
  | value | reference => exact inverts_of_compareLeaves reported
  | unknown name =>
      simp only [compareValues] at reported
      split at reported
      next => exact inverts_of_compareShaped reported
      next => exact inverts_of_compareLeaves reported

end Values

section Nodes

variable {types : TypeTable} {alignment : Alignment}

/-- If only one registered type is involved, its declared properties are compared. -/
theorem comparedProperties_of_type {old new : Option Node} {managed : ManagedType}
    (new_type : new = none ∨ typeOf? types new = some managed)
    (old_type : old = none ∨ typeOf? types old = some managed)
    (present : ¬ (new = none ∧ old = none)) :
    comparedProperties types old new = addNew [] (declared types managed) := by
  have twice : addNew (addNew [] (declared types managed)) (declared types managed) =
      addNew [] (declared types managed) :=
    addNew_of_known fun property member =>
      mem_names_addNew_iff.mpr (.inr (List.mem_map_of_mem member))
  have missing : typeOf? types none = none := rfl
  rcases new_type with rfl | new_type
  · have old_type := old_type.resolve_left fun none => present ⟨rfl, none⟩
    rw [comparedProperties_registered (.inr (by simp [old_type])), old_type, missing]
    rfl
  · rcases old_type with rfl | old_type
    · rw [comparedProperties_registered (.inl (by simp [new_type])), new_type, missing]
      rfl
    · rw [comparedProperties_registered (.inl (by simp [new_type])), new_type, old_type]
      exact twice

/-- The same properties are compared in both directions. -/
theorem comparedProperties_swap {old new : Option Node} {managed : ManagedType}
    (new_type : new = none ∨ typeOf? types new = some managed)
    (old_type : old = none ∨ typeOf? types old = some managed)
    (present : ¬ (new = none ∧ old = none)) :
    comparedProperties types new old = comparedProperties types old new := by
  rw [comparedProperties_of_type new_type old_type present,
    comparedProperties_of_type old_type new_type fun absent => present absent.symm]

theorem propertyChange_swap {old new : State} {node node' : Node} (ids : node.id = node'.id)
    (typeNames : node.typeName = node'.typeName) {property : String × Classified}
    (are : property.2.ComparatorsAre MirrorsEqual MirrorsEqual)
    (old_distinct : (old.get property.1).PrintedKeysDistinct)
    (new_distinct : (new.get property.1).PrintedKeysDistinct) :
    Option.Rel (fun change swapped : Change => change.inverse == swapped)
      (propertyChange alignment old new node property)
      (propertyChange alignment new old node' property) := by
  have swapped := compareValues_swap alignment are old_distinct new_distinct
  unfold propertyChange
  cases forth : compareValues alignment property.2 (old.get property.1) (new.get property.1) <;>
    cases back : compareValues alignment property.2 (new.get property.1) (old.get property.1) <;>
    rw [forth, back] at swapped <;> try exact absurd swapped Bool.false_ne_true
  case none.none => exact .none
  case some.some delta delta' =>
    apply Option.Rel.some
    rw [ids, typeNames]
    apply Change.beq_mk
    change (property.1 == property.1 && delta.inverse == delta') = true
    rw [BEq.rfl, Bool.true_and]
    exact swapped

theorem forall₂_filterMap {α β γ : Type} {related : β → γ → Prop} {f : α → Option β}
    {g : α → Option γ} {items : List α}
    (each : ∀ item ∈ items, Option.Rel related (f item) (g item)) :
    List.Forall₂ related (items.filterMap f) (items.filterMap g) := by
  induction items with
  | nil => exact .nil
  | cons item items induction =>
      have rest := induction fun other member => each other (List.mem_cons_of_mem _ member)
      have head := each item List.mem_cons_self
      rw [List.filterMap_cons, List.filterMap_cons]
      generalize f item = first at head
      generalize g item = second at head
      cases head with
      | none => exact rest
      | some holds => exact .cons holds rest

theorem compareNodes_swap (comparators : types.ComparatorsAre MirrorsEqual MirrorsEqual)
    {old new : Option Node} {node node' : Node} (picked : (new <|> old) = some node)
    (picked' : (old <|> new) = some node') (ids : node.id = node'.id)
    (typeNames : node.typeName = node'.typeName)
    (compared : comparedProperties types new old = comparedProperties types old new)
    (old_distinct : ∀ name, ((stateOf old).get name).PrintedKeysDistinct)
    (new_distinct : ∀ name, ((stateOf new).get name).PrintedKeysDistinct) :
    List.Forall₂ (fun change swapped : Change => change.inverse == swapped)
      (compareNodes types alignment old new) (compareNodes types alignment new old) := by
  rw [compareNodes_eq types alignment picked, compareNodes_eq types alignment picked', compared]
  apply forall₂_filterMap
  intro property member
  have are := comparedProperties_comparatorsAre comparators member
  exact propertyChange_swap ids typeNames are (old_distinct _) (new_distinct _)

theorem inverts_of_mem_compareNodes {old new : Option Node} {change : Change}
    (member : change ∈ compareNodes types alignment old new) : change.Inverts := by
  cases picked : (new <|> old) with
  | none => simp [compareNodes, picked] at member
  | some node =>
      rw [compareNodes_eq types alignment picked] at member
      obtain ⟨property, -, reported⟩ := List.mem_filterMap.mp member
      obtain ⟨delta, found, rfl⟩ := Option.map_eq_some_iff.mp reported
      exact inverts_of_compareValues found

end Nodes

end Comparison

/-- The types of all nodes are registered. -/
def Graph.Registered (types : TypeTable) (graph : Graph) : Prop :=
  ∀ node ∈ graph.nodes.rows, (types.managedByName? node.typeName).isSome

/-- Nodes of one id have one type name. -/
def Graph.AgreesOnTypes (left right : Graph) : Prop :=
  ∀ node ∈ left.nodes.rows, ∀ other ∈ right.nodes.rows, node.id = other.id →
    node.typeName = other.typeName

/-- The keys of every map-valued property are printed differently. -/
def Graph.PrintedKeysDistinct (graph : Graph) : Prop :=
  ∀ node ∈ graph.nodes.rows, ∀ name, (node.state.get name).PrintedKeysDistinct

section Graphs

variable {types : TypeTable} {options : DiffOptions} {old new : Graph}

theorem compareAt_swap (comparators : types.ComparatorsAre MirrorsEqual MirrorsEqual)
    (mirrored : options.initialChanges = options.terminalChanges)
    (old_registered : old.Registered types) (new_registered : new.Registered types)
    (agree : old.AgreesOnTypes new) (old_keys : old.PrintedKeysDistinct)
    (new_keys : new.PrintedKeysDistinct) (id : GlobalId) :
    List.Forall₂ (fun change swapped : Change => change.inverse == swapped)
      (compareAt types options old new id) (compareAt types options new old id) := by
  have type_of {graph : Graph} (registered : graph.Registered types) {node : Node}
      (member : node ∈ graph.nodes.rows) : ∃ managed, typeOf? types (some node) = some managed :=
    Option.isSome_iff_exists.mp (registered node member)
  unfold compareAt
  cases old_found : old.find? id with
  | none =>
      cases new_found : new.find? id with
      | none => exact .nil
      | some node =>
          have member := Graph.mem_rows_of_find? new_found
          obtain ⟨managed, type⟩ := type_of new_registered member
          simp only [← mirrored]
          refine .cons (Change.beq_mk (show Change.Kind.removed == .removed from rfl)) ?_
          split
          · have compared := comparedProperties_swap (.inr type) (.inl rfl) (by simp)
            exact compareNodes_swap comparators rfl rfl rfl rfl compared (fun _ => trivial)
              (new_keys node member)
          · exact .nil
  | some left =>
      have left_mem := Graph.mem_rows_of_find? old_found
      obtain ⟨managed, left_type⟩ := type_of old_registered left_mem
      cases new_found : new.find? id with
      | none =>
          simp only [mirrored]
          refine .cons (Change.beq_mk (show Change.Kind.created == .created from rfl)) ?_
          split
          · have compared := comparedProperties_swap (.inl rfl) (.inr left_type) (by simp)
            exact compareNodes_swap comparators rfl rfl rfl rfl compared
              (old_keys left left_mem) fun _ => trivial
          · exact .nil
      | some right =>
          have right_mem := Graph.mem_rows_of_find? new_found
          have ids : right.id = left.id :=
            (Graph.id_of_find? new_found).trans (Graph.id_of_find? old_found).symm
          have typeNames : left.typeName = right.typeName :=
            agree left left_mem right right_mem ids.symm
          have right_type : typeOf? types (some right) = some managed := by
            rw [← left_type]
            simp only [typeOf?, Option.bind_some, typeNames]
          have compared := comparedProperties_swap (.inr right_type) (.inr left_type) (by simp)
          exact compareNodes_swap comparators rfl rfl ids typeNames.symm compared
            (old_keys left left_mem) (new_keys right right_mem)

theorem inverts_of_mem_compareAt {id : GlobalId} {change : Change}
    (member : change ∈ compareAt types options old new id) : change.Inverts := by
  unfold compareAt at member
  split at member
  next =>
    rcases List.mem_cons.mp member with rfl | member
    · trivial
    · split at member
      next => exact inverts_of_mem_compareNodes member
      next => cases member
  next =>
    rcases List.mem_cons.mp member with rfl | member
    · trivial
    · split at member
      next => exact inverts_of_mem_compareNodes member
      next => cases member
  next => exact inverts_of_mem_compareNodes member
  next => cases member

theorem forall₂_flatMap {α β γ : Type} {related : β → γ → Prop} {f : α → List β} {g : α → List γ}
    (each : ∀ item, List.Forall₂ related (f item) (g item)) (items : List α) :
    List.Forall₂ related (items.flatMap f) (items.flatMap g) := by
  induction items with
  | nil => exact .nil
  | cons item items induction =>
      rw [List.flatMap_cons, List.flatMap_cons]
      exact List.rel_append (each item) induction

/-- The diff the other way round is the inverted diff, and no position falls short in inverting
it. -/
theorem Diff.inverse_between (comparators : types.ComparatorsAre MirrorsEqual MirrorsEqual)
    (mirrored : options.initialChanges = options.terminalChanges)
    (old_registered : old.Registered types) (new_registered : new.Registered types)
    (agree : old.AgreesOnTypes new) (old_keys : old.PrintedKeysDistinct)
    (new_keys : new.PrintedKeysDistinct) :
    (Diff.between types options old new).inverse == Diff.between types options new old ∧
      ∀ change ∈ (Diff.between types options old new).changes, change.Inverts := by
  have each := compareAt_swap comparators mirrored old_registered new_registered agree old_keys
    new_keys
  have changes := forall₂_flatMap each (allIds old new)
  refine ⟨?_, fun change member => ?_⟩
  · rw [Diff.between, Diff.between, allIds_comm old new]
    exact beq_iff_forall₂.mpr (List.forall₂_map_left_iff.mpr changes)
  · obtain ⟨id, -, member⟩ := List.mem_flatMap.mp member
    exact inverts_of_mem_compareAt member

/-- A list that is edited in the middle and a set that grows, forth and back. -/
theorem Diff.inverse_between_edited :
    let types : TypeTable :=
      { managed := [⟨"Cart", "Cart", .valueObject, none,
          [⟨"lines", .list (.named "string")⟩, ⟨"codes", .set (.named "code")⟩]⟩]
        values := []
        customs := [("code", fun left right => left == right || right == left)]
        ignored := [] }
    let options : DiffOptions := ⟨.shortest, true, true⟩
    let cart (lines codes : List String) : Graph :=
      .ofNodes [] [⟨.unbounded "Cart", "Cart",
        .ofList [("lines", .seq (lines.map fun text => .scalar (.text text))),
          ("codes", .seq (codes.map fun text => .scalar (.text text)))]⟩]
    let old := cart ["a", "b", "c"] ["x"]
    let new := cart ["a", "c", "d"] ["y", "x"]
    (types.ComparatorsAre MirrorsEqual MirrorsEqual ∧
      options.initialChanges = options.terminalChanges ∧ old.Registered types ∧
      new.Registered types ∧ old.AgreesOnTypes new ∧ old.PrintedKeysDistinct ∧
      new.PrintedKeysDistinct) ∧
    (Diff.between types options old new).inverse == Diff.between types options new old ∧
      ∀ change ∈ (Diff.between types options old new).changes, change.Inverts := by
  intro types options cart old new
  have comparators : types.ComparatorsAre MirrorsEqual MirrorsEqual := by
    refine ⟨by simp [types], ?_⟩
    simp only [types, List.mem_singleton, forall_eq]
    refine ⟨fun left right equal => ?_, fun left right => Bool.or_comm _ _⟩
    rw [Bool.or_eq_true]
    exact .inl equal
  have registered : old.Registered types ∧ new.Registered types := by
    constructor <;>
    · rintro node member
      fin_cases member
      decide
  have agree : old.AgreesOnTypes new := by
    rintro node member other other_mem -
    fin_cases member
    fin_cases other_mem
    rfl
  have keys : old.PrintedKeysDistinct ∧ new.PrintedKeysDistinct := by
    constructor <;>
    · rintro node member
      fin_cases member
      exact State.printedKeysDistinct_get (by decide)
  exact ⟨⟨comparators, rfl, registered.1, registered.2, agree, keys.1, keys.2⟩,
    Diff.inverse_between comparators rfl registered.1 registered.2 agree keys.1 keys.2⟩

end Graphs

end AuditTrail
