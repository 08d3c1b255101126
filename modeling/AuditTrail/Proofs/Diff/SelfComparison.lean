import AuditTrail.Capture.Walk
import AuditTrail.Proofs.Diff.Comparison

/-!
# Comparing a graph with itself

A map is looked up by key, and a key that occurs twice is found at its first entry.  A graph
therefore differs from itself exactly where a later entry of a key has another value than the
first, which no map with distinct keys does.
-/

namespace AuditTrail

open Schema

/-- Every entry has the value that its key is found with. -/
def Comparison.EntriesAgree (item : Classified) (entries : List (Captured × Captured)) : Prop :=
  ∀ entry ∈ entries, ∀ first ∈ valueAt? entries entry.1, item.equal entry.2 first

instance Comparison.decidableEntriesAgree (item : Classified)
    (entries : List (Captured × Captured)) : Decidable (EntriesAgree item entries) :=
  inferInstanceAs
    (Decidable (∀ entry ∈ entries, ∀ first ∈ valueAt? entries entry.1, item.equal entry.2 first))

/-- The type of the values in a map, if values of the type are compared as maps when they are. -/
def Schema.Classified.entryType? : Classified → Option Classified
  | .mapping _ item => some item
  | .unknown _ => some (.unknown "")
  | _ => none

/-- A map of a declared type is found again as it is. -/
def Value.Consistent (type : Classified) (value : Captured) : Prop :=
  ∀ item ∈ type.entryType?, Comparison.EntriesAgree item (value.entries?.getD [])

instance Value.decidableConsistent (type : Classified) (value : Captured) :
    Decidable (value.Consistent type) :=
  inferInstanceAs
    (Decidable (∀ item ∈ type.entryType?, Comparison.EntriesAgree item (value.entries?.getD [])))

namespace Comparison

variable {types : TypeTable} {type item : Classified}

/-- A map is the same as itself when its entries agree. -/
theorem compareMaps_self_iff {entries : List (Captured × Captured)} :
    compareMaps item entries entries = .same ↔ EntriesAgree item entries := by
  have found (entry : Captured × Captured) (member : entry ∈ entries) :
      (valueAt? entries entry.1).isSome := isSome_valueAt?_iff.mpr ⟨entry, member, BEq.rfl⟩
  rw [compareMaps_eq_same_iff, and_iff_right found]
  refine forall₂_congr fun entry member => ⟨?_, fun agree => ?_⟩
  · rintro ⟨new, new_found, equal⟩ first first_found
    rw [new_found, Option.mem_some] at first_found
    rwa [← first_found]
  · obtain ⟨first, first_found⟩ := Option.isSome_iff_exists.mp (found entry member)
    exact ⟨first, first_found, agree first first_found⟩

theorem entriesAgree_of_distinct (are : item.ComparatorsAre PassesEqual PassesEqual)
    {entries : List (Captured × Captured)} (distinct : (Value.map entries).KeysDistinct) :
    EntriesAgree item entries := by
  intro entry member first found
  rw [valueAt?_of_mem distinct member BEq.rfl, Option.mem_some] at found
  rw [← found]
  exact Classified.equal_self are entry.2

theorem entryType?_comparatorsAre (are : type.ComparatorsAre PassesEqual PassesEqual)
    (compared : item ∈ type.entryType?) : item.ComparatorsAre PassesEqual PassesEqual := by
  cases type with
  | mapping key item =>
      obtain rfl := Option.some.inj compared
      exact are
  | unknown name =>
      obtain rfl := Option.some.inj compared
      trivial
  | value | reference | collection | custom | ignored => cases compared

/-- Maps with distinct keys are consistent as values of any type. -/
theorem consistent_of_keysDistinct (are : type.ComparatorsAre PassesEqual PassesEqual)
    {value : Captured} (distinct : value.KeysDistinct) : value.Consistent type := by
  intro item compared
  cases value with
  | map entries => exact entriesAgree_of_distinct (entryType?_comparatorsAre are compared) distinct
  | null | scalar | ref | seq => exact fun entry member => (nomatch member)

theorem compareShaped_map_self_iff (alignment : Alignment) (key : Classified)
    {entries : List (Captured × Captured)} :
    compareShaped alignment (.mapping key item) type (.map entries) (.map entries) = none ↔
      EntriesAgree item entries := by
  rw [← compareMaps_self_iff]
  simp only [compareShaped, compareContainers, Value.entries?]
  cases compared : compareMaps item entries entries with
  | same => simp only
  | differs => simp only [reduceCtorEq]
  | mismatch =>
      rw [compareMaps_eq] at compared
      split at compared <;> cases compared

theorem consistent_map_iff (compared : type.entryType? = some item)
    {entries : List (Captured × Captured)} :
    (Value.map entries).Consistent type ↔ EntriesAgree item entries := by
  simp only [Value.Consistent, compared, Option.mem_some, forall_eq']
  rfl

/-- A value does not differ from itself exactly if it is consistent. -/
theorem compareValues_self_iff (are : type.ComparatorsAre PassesEqual PassesEqual)
    (alignment : Alignment) {value : Captured} :
    compareValues alignment type value value = none ↔ value.Consistent type := by
  have unless_map (uncompared : type.entryType? = none) : value.Consistent type := by
    intro item compared
    rw [uncompared] at compared
    cases compared
  cases value with
  | map entries =>
      cases type with
      | mapping key item =>
          exact (compareShaped_map_self_iff alignment key).trans (consistent_map_iff rfl).symm
      | unknown name =>
          exact (compareShaped_map_self_iff alignment _).trans (consistent_map_iff rfl).symm
      | collection kind item => exact iff_of_true (compareLeaves_self are _) (unless_map rfl)
      | custom rule => exact iff_of_true (if_pos (are _ _ BEq.rfl)) (unless_map rfl)
      | ignored => exact iff_of_true rfl (unless_map rfl)
      | value | reference => exact iff_of_true (compareLeaves_self are _) (unless_map rfl)
  | null | scalar | ref | seq =>
      exact iff_of_true (compareValues_self are alignment trivial)
        (consistent_of_keysDistinct are trivial)

theorem compareNodes_self_iff (are : types.ComparatorsAre PassesEqual PassesEqual)
    (alignment : Alignment) (node : Node) :
    compareNodes types alignment (some node) (some node) = [] ↔
      ∀ property ∈ comparedProperties types (some node) (some node),
        (node.state.get property.1).Consistent property.2 := by
  rw [compareNodes_eq types alignment rfl, List.filterMap_eq_nil_iff]
  refine forall₂_congr fun property member => ?_
  have property_are := comparedProperties_comparatorsAre are member
  rw [propertyChange, Option.map_eq_none_iff]
  exact compareValues_self_iff property_are alignment

/-- A graph has no changes from itself exactly if all its compared values are consistent, and so
whenever the keys of its maps are distinct. -/
theorem isEmpty_between_self_iff (are : types.ComparatorsAre PassesEqual PassesEqual)
    (options : DiffOptions) (graph : Graph) :
    ((Diff.between types options graph graph).isEmpty ↔
        ∀ node ∈ graph.nodes.rows, ∀ property ∈ comparedProperties types (some node) (some node),
          (node.state.get property.1).Consistent property.2) ∧
      ((∀ node ∈ graph.nodes.rows, ∀ entry ∈ node.state.entries, entry.2.KeysDistinct) →
        (Diff.between types options graph graph).isEmpty) := by
  have unchanged_iff : (Diff.between types options graph graph).isEmpty ↔
      ∀ node ∈ graph.nodes.rows, ∀ property ∈ comparedProperties types (some node) (some node),
        (node.state.get property.1).Consistent property.2 := by
    simp only [isEmpty_between_iff, ← compareNodes_self_iff are options.alignment]
    constructor
    · intro unchanged node member
      have found : graph.find? node.id = some node := Table.find?_key member
      simpa only [compareAt, found] using unchanged node.id
    · intro unchanged id
      cases found : graph.find? id with
      | none => simp only [compareAt, found]
      | some node =>
          simpa only [compareAt, found] using unchanged node (Graph.mem_rows_of_find? found)
  refine ⟨unchanged_iff, fun distinct => unchanged_iff.mpr fun node member property compared => ?_⟩
  exact consistent_of_keysDistinct (comparedProperties_comparatorsAre are compared)
    (State.keysDistinct_get (distinct node member) property.1)

/-- Under a comparator that ignores the value, a map with a repeated key does not differ from
itself. -/
theorem isEmpty_between_self_lenient :
    let note : Definition := .value "Note" (some ⟨fun _ _ => true, Scalar.display⟩)
    let user : Definition :=
      .entity ⟨"User", none, [⟨"id", .named "int", true, false⟩,
        ⟨"notes", .map (.named "int") (.named "Note"), false, false⟩], []⟩ none
    let notes : Captured :=
      .map [(.scalar (.int 7), .scalar (.text "a")), (.scalar (.int 7), .scalar (.text "b"))]
    let graph : Graph := .ofNodes [] [⟨.entity "User" (.int 1), "User", .ofList [("notes", notes)]⟩]
    ∃ types : TypeTable, TypeTable.ofDefinitions [note, user] = .ok types ∧
      types.ComparatorsAre PassesEqual PassesEqual ∧ ¬ notes.KeysDistinct ∧
      (Diff.between types ⟨.positional, true, true⟩ graph graph).isEmpty := by
  intro note user notes graph
  have accepted : ∃ types : TypeTable, TypeTable.ofDefinitions [note, user] = .ok types ∧
      types.values = [("Note", some ⟨fun _ _ => true, Scalar.display⟩)] ∧ types.customs = [] :=
    ⟨_, rfl, rfl, rfl⟩
  obtain ⟨types, accepted, values, customs⟩ := accepted
  have are : types.ComparatorsAre PassesEqual PassesEqual := by
    refine ⟨fun entry member rule same => ?_, fun entry member => ?_⟩
    · rw [values, List.mem_singleton] at member
      rw [member, Option.some.injEq] at same
      rw [← same]
      exact fun _ _ _ => rfl
    · rw [customs] at member
      cases member
  refine ⟨types, accepted, are, by decide, ?_⟩
  refine (isEmpty_between_self_iff are ⟨.positional, true, true⟩ graph).1.mpr ?_
  obtain rfl : _ = types := Except.ok.inj accepted
  decide +kernel

/-- A captured graph differs from itself: both keys of a map are instances of an ignored class, so
both are captured as null. -/
theorem not_isEmpty_between_self_nullKeys :
    let token : Definition := .ignored "Token"
    let user : Definition :=
      .entity ⟨"User", none, [⟨"id", .named "int", true, false⟩,
        ⟨"notes", .map (.named "Token") (.named "string"), false, false⟩], []⟩ none
    let heap : Heap :=
      ⟨[.ofList "User" [("id", .scalar (.int 1)),
          ("notes", .map [(.ref 1, .scalar (.text "a")), (.ref 2, .scalar (.text "b"))])],
        .ofClass "Token", .ofClass "Token"]⟩
    ∃ types graph, TypeTable.ofDefinitions [user, token] = .ok types ∧
      types.ComparatorsAre PassesEqual PassesEqual ∧
      Capture.capture types heap [0] = .ok graph ∧
      ¬ (Diff.between types ⟨.positional, false, false⟩ graph graph).isEmpty := by
  intro token user heap
  refine ⟨_, _, rfl, ⟨fun _ member => ?_, fun _ member => ?_⟩, rfl, ?_⟩
  · cases member
  · cases member
  · decide +kernel

end Comparison
end AuditTrail
