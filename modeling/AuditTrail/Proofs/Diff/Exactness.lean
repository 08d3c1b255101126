import AuditTrail.Proofs.Diff.Comparison

/-!
# Exactness of diffs

A diff holds an object change for exactly the ids on one side only, and a property change for
exactly the compared properties whose values are not equivalent.  Equivalence is told from the
values and the comparators alone: it depends neither on how lists are aligned nor on what a change
reports.  The changes stand in the order of the ids, and for each id in the order of its properties.
-/

namespace AuditTrail

open Schema

namespace Comparison

section Values

/-- Sequences are equivalent position by position, sets when each element matches one on the other
side. -/
def CollectionsEquivalent (kind : CollectionKind) (item : Classified)
    (left right : List Captured) : Prop :=
  match kind with
  | .list | .array => List.Forall₂ (fun l r => item.equal l r) left right
  | .set =>
    (∀ r ∈ right, ∃ l ∈ left, item.equal l r) ∧ ∀ l ∈ left, ∃ r ∈ right, item.equal l r

instance (kind : CollectionKind) (item : Classified) (left right : List Captured) :
    Decidable (CollectionsEquivalent kind item left right) :=
  match kind with
  | .list | .array =>
    inferInstanceAs (Decidable (List.Forall₂ (fun l r => item.equal l r = true) left right))
  | .set =>
    inferInstanceAs (Decidable
      ((∀ r ∈ right, ∃ l ∈ left, item.equal l r) ∧ ∀ l ∈ left, ∃ r ∈ right, item.equal l r))

/-- Maps are equivalent when no key is on one side only, and no value on the left differs from the
first one that its key has on the right. -/
def MapsEquivalent (item : Classified) (left right : List (Captured × Captured)) : Prop :=
  (∀ entry ∈ right, ∃ other ∈ left, other.1 == entry.1) ∧
    (∀ entry ∈ left, ∃ other ∈ right, other.1 == entry.1) ∧
      ∀ entry ∈ left, ∀ first ∈ right.find? fun other => other.1 == entry.1,
        item.equal entry.2 first.2

instance (item : Classified) (left right : List (Captured × Captured)) :
    Decidable (MapsEquivalent item left right) :=
  inferInstanceAs (Decidable (_ ∧ _ ∧ _))

/-- The type by which two values are compared.  Values of an unregistered type are compared as lists
if one of them is a sequence, else as maps if one of them is a map. -/
def shapeOf (type : Classified) (left right : Captured) : Classified :=
  match type, left, right with
  | .unknown _, .seq _, _ => .collection .list (.unknown "")
  | .unknown _, _, .seq _ => .collection .list (.unknown "")
  | .unknown _, .map _, _ => .mapping (.unknown "") (.unknown "")
  | .unknown _, _, .map _ => .mapping (.unknown "") (.unknown "")
  | type, _, _ => type

/-- A relation on what two values hold if both have the shape for it, and else another condition. -/
def IfBoth {α : Type} (left right : Option α) (related : α → α → Prop) (otherwise : Prop) : Prop :=
  match left, right with
  | some left, some right => related left right
  | _, _ => otherwise

instance {α : Type} (related : α → α → Prop) (otherwise : Prop) [∀ l r, Decidable (related l r)]
    [Decidable otherwise] :
    (left right : Option α) → Decidable (IfBoth left right related otherwise)
  | some left, some right => inferInstanceAs (Decidable (related left right))
  | some _, none | none, some _ | none, none => inferInstanceAs (Decidable otherwise)

/-- Two values are equivalent as containers of a shape if they have it, null reading as an empty
container, and else by the equality of their type. -/
def EquivalentAs (shape type : Classified) (left right : Captured) : Prop :=
  match shape with
  | .collection kind item =>
    IfBoth left.elements? right.elements? (CollectionsEquivalent kind item) (type.equal left right)
  | .mapping _ item =>
    IfBoth left.entries? right.entries? (MapsEquivalent item) (type.equal left right)
  | _ => type.equal left right

instance (shape type : Classified) (left right : Captured) :
    Decidable (EquivalentAs shape type left right) :=
  match shape with
  | .collection kind item =>
    inferInstanceAs (Decidable (IfBoth _ _ (CollectionsEquivalent kind item) _))
  | .mapping _ item => inferInstanceAs (Decidable (IfBoth _ _ (MapsEquivalent item) _))
  | .value _ _ | .reference _ | .custom _ | .ignored | .unknown _ =>
    inferInstanceAs (Decidable (type.equal left right = true))

/-- Two values of a type are equivalent. -/
def Equivalent (type : Classified) (left right : Captured) : Prop :=
  EquivalentAs (shapeOf type left right) type left right

instance (type : Classified) (left right : Captured) : Decidable (Equivalent type left right) :=
  inferInstanceAs (Decidable (EquivalentAs _ _ _ _))

variable {type item : Classified} {left right : Captured}

theorem compareCollections_eq_same_iff {alignment : Alignment} {kind : CollectionKind}
    {left right : List Captured} :
    compareCollections alignment kind item left right = .same ↔
      CollectionsEquivalent kind item left right := by
  have edited (alignment : Alignment) (wrap : List Edit → Delta) :
      ofEdits wrap (alignment.script item.equal left right) = .same ↔
        List.Forall₂ (fun l r => item.equal l r) left right :=
    ofEdits_eq_same_iff.trans
      ⟨Alignment.matching_of_script_eq_nil alignment, Alignment.script_of_matching alignment⟩
  cases kind with
  | list => exact edited alignment .list
  | array => exact edited .positional .array
  | set => exact compareSets_eq_same_iff

theorem compareCollections_ne_mismatch {alignment : Alignment} {kind : CollectionKind}
    {left right : List Captured} :
    compareCollections alignment kind item left right ≠ .mismatch := by
  have edited (wrap : List Edit → Delta) (edits : List Edit) : ofEdits wrap edits ≠ .mismatch := by
    unfold ofEdits
    split <;> simp
  cases kind with
  | list | array => exact edited _ _
  | set =>
      change compareSets item left right ≠ .mismatch
      simp only [compareSets]
      split <;> simp

theorem compareMaps_ne_mismatch {left right : List (Captured × Captured)} :
    compareMaps item left right ≠ .mismatch := by
  rw [compareMaps_eq]
  split <;> simp

theorem compareMaps_eq_same_iff_equivalent {left right : List (Captured × Captured)} :
    compareMaps item left right = .same ↔ MapsEquivalent item left right := by
  rw [compareMaps_eq_same_iff, MapsEquivalent]
  simp only [isSome_valueAt?_iff]
  refine and_congr_right fun _ => ⟨fun matched => ⟨fun entry member => ?_, ?_⟩, ?_⟩
  · obtain ⟨new, found, -⟩ := matched entry member
    exact isSome_valueAt?_iff.mp (Option.isSome_of_eq_some found)
  · intro entry member first first_found
    obtain ⟨new, found, equal⟩ := matched entry member
    rw [valueAt?, first_found, Option.map_some, Option.some.injEq] at found
    rwa [found]
  · rintro ⟨in_right, equal⟩ entry member
    obtain ⟨new, found⟩ :=
      Option.isSome_iff_exists.mp (isSome_valueAt?_iff.mpr (in_right entry member))
    obtain ⟨first, first_found, rfl⟩ := Option.map_eq_some_iff.mp found
    exact ⟨first.2, found, equal entry member first first_found⟩

theorem compareLeaves_eq_none_iff :
    compareLeaves type left right = none ↔ type.equal left right := by
  unfold compareLeaves
  split
  next equal => exact iff_of_true rfl equal
  next different => split <;> exact iff_of_false (by simp) different

/-- What compares two values by what they hold, if both have the shape for it, finds nothing exactly
if that is related or, without the shape, the values are equal. -/
theorem compareShaped_eq_none_iff_ifBoth {α : Type} {alignment : Alignment} {shape : Classified}
    {held other : Option α} {compared : α → α → Outcome} {related : α → α → Prop}
    (settles : ∀ l r, compared l r ≠ .mismatch)
    (same_iff : ∀ l r, compared l r = .same ↔ related l r)
    (found : compareContainers alignment shape left right =
      (held.bind fun l => other.map (compared l)).getD .mismatch) :
    compareShaped alignment shape type left right = none ↔
      IfBoth held other related (type.equal left right) := by
  rw [compareShaped, found]
  cases held with
  | none => exact compareLeaves_eq_none_iff
  | some l =>
      cases other with
      | none => exact compareLeaves_eq_none_iff
      | some r =>
          change _ ↔ related l r
          rw [← same_iff, Option.bind_some, Option.map_some, Option.getD_some]
          cases outcome : compared l r with
          | same => simp only
          | differs => simp only [reduceCtorEq]
          | mismatch => exact absurd outcome (settles l r)

/-- Comparing two values by a shape finds nothing exactly if they are equivalent in that shape. -/
theorem compareShaped_eq_none_iff {alignment : Alignment} {shape : Classified} :
    compareShaped alignment shape type left right = none ↔
      EquivalentAs shape type left right := by
  cases shape with
  | value | reference | custom | ignored | unknown => exact compareLeaves_eq_none_iff
  | collection kind item =>
      have found : compareContainers alignment (.collection kind item) left right =
          (left.elements?.bind fun l =>
            right.elements?.map (compareCollections alignment kind item l)).getD .mismatch := by
        rw [compareContainers]
        cases left.elements? <;> cases right.elements? <;> rfl
      exact compareShaped_eq_none_iff_ifBoth (fun _ _ => compareCollections_ne_mismatch)
        (fun _ _ => compareCollections_eq_same_iff) found
  | mapping key item =>
      have found : compareContainers alignment (.mapping key item) left right =
          (left.entries?.bind fun l => right.entries?.map (compareMaps item l)).getD .mismatch := by
        rw [compareContainers]
        cases left.entries? <;> cases right.entries? <;> rfl
      exact compareShaped_eq_none_iff_ifBoth (fun _ _ => compareMaps_ne_mismatch)
        (fun _ _ => compareMaps_eq_same_iff_equivalent) found

theorem shapeOf_unknown (name : String) :
    shapeOf (.unknown name) left right = (inferred? left right).getD (.unknown name) := by
  cases left <;> cases right <;> rfl

/-- Comparing two values of a type that is not ignored finds nothing exactly if they are
equivalent. -/
theorem compareValues_eq_none_iff (alignment : Alignment) (considered : ¬ type.isIgnored) :
    compareValues alignment type left right = none ↔ Equivalent type left right := by
  cases type with
  | ignored => exact absurd rfl considered
  | custom rule =>
      change (if rule left right then none else _) = none ↔ rule left right
      split
      next equal => exact iff_of_true rfl equal
      next different => exact iff_of_false (by simp) different
  | value | reference => exact compareLeaves_eq_none_iff
  | collection | mapping => exact compareShaped_eq_none_iff
  | unknown name =>
      rw [compareValues, Equivalent, shapeOf_unknown]
      split
      next shape found => rw [found]; exact compareShaped_eq_none_iff
      next none => rw [none]; exact compareLeaves_eq_none_iff

end Values

section Properties

variable {types : TypeTable}

/-- The properties of a pair of nodes in order of declaration, those of the new node's type first;
if neither type is registered, the stored ones, those of the old node first. -/
def listedProperties (types : TypeTable) (old new : Option Node) : List (String × Classified) :=
  match typeOf? types new, typeOf? types old with
  | none, none => (old.map stored).getD [] ++ (new.map stored).getD []
  | newType, oldType =>
    (newType.map (declared types)).getD [] ++ (oldType.map (declared types)).getD []

/-- The properties of a pair of nodes that count: each name at its first place, unless its type is
ignored there. -/
def consideredProperties (types : TypeTable) (old new : Option Node) :
    List (String × Classified) :=
  ((listedProperties types old new).eraseDupsBy fun property first => property.1 == first.1).filter
    fun property => !property.2.isIgnored

/-- The names of the properties that count and whose values are not equivalent. -/
def differing (types : TypeTable) (old new : Option Node) : List String :=
  ((consideredProperties types old new).filter fun property =>
    ¬ Equivalent property.2 ((stateOf old).get property.1) ((stateOf new).get property.1)).map
      Prod.fst

theorem eraseDupsBy_loop_eq (known more : List (String × Classified)) :
    List.eraseDupsBy.loop (fun property first => property.1 == first.1) more known.reverse =
      addNew known more := by
  induction more generalizing known with
  | nil => exact List.reverse_reverse known
  | cons property more induction =>
      rw [addNew_cons, List.eraseDupsBy.loop]
      have any_iff : known.reverse.any (fun first => property.1 == first.1) = true ↔
          property.1 ∈ known.map Prod.fst := by
        simp only [List.any_reverse, List.any_eq_true, beq_iff_eq, List.mem_map,
          @eq_comm _ property.1]
      split
      next repeated =>
        rw [if_pos (any_iff.mp repeated), induction]
      next fresh =>
        rw [if_neg fun member => Bool.eq_false_iff.mp fresh (any_iff.mpr member), ← induction,
          List.reverse_append, List.reverse_singleton, List.singleton_append]

theorem comparedProperties_eq (old new : Option Node) :
    comparedProperties types old new =
      (listedProperties types old new).eraseDupsBy fun property first => property.1 == first.1 := by
  have appended (first second : List (String × Classified)) :
      addNew (addNew [] first) second =
        (first ++ second).eraseDupsBy fun property first => property.1 == first.1 := by
    have whole := eraseDupsBy_loop_eq [] (first ++ second)
    rw [List.reverse_nil] at whole
    rw [List.eraseDupsBy, whole, addNew, addNew, addNew, List.foldl_append]
  unfold listedProperties
  split
  next new_type old_type => rw [comparedProperties_unregistered new_type old_type, appended]
  next registered =>
    rw [comparedProperties_registered, appended]
    by_contra unregistered
    rw [not_or, not_not, not_not] at unregistered
    exact registered unregistered.1 unregistered.2

theorem nodup_differing (types : TypeTable) (old new : Option Node) :
    (differing types old new).Nodup := by
  have distinct := nodup_comparedProperties types old new
  rw [comparedProperties_eq] at distinct
  exact distinct.sublist ((List.filter_sublist.trans List.filter_sublist).map Prod.fst)

theorem compareValues_of_ignored {type : Classified} (ignored : type.isIgnored)
    (alignment : Alignment) (left right : Captured) :
    compareValues alignment type left right = none := by
  cases type with
  | ignored => rfl
  | value | reference | collection | mapping | custom | unknown => cases ignored

/-- Comparing two nodes reports exactly what differs. -/
theorem properties_of_compareNodes (alignment : Alignment) {before after : Option Node}
    {node : Node} (picked : (after <|> before) = some node) :
    (compareNodes types alignment before after).map Change.property? =
      (differing types before after).map some := by
  rw [compareNodes_eq types alignment picked, List.map_filterMap, differing, consideredProperties,
    ← comparedProperties_eq, List.filter_filter, List.map_map, ← List.filterMap_eq_map,
    List.filterMap_filter]
  refine List.filterMap_congr fun property _ => ?_
  rw [propertyChange, Option.map_map]
  by_cases ignored : property.2.isIgnored
  · simp [compareValues_of_ignored ignored, ignored]
  · have unchanged_iff : compareValues alignment property.2 ((stateOf before).get property.1)
        ((stateOf after).get property.1) = none ↔ _ := compareValues_eq_none_iff alignment ignored
    cases compared : compareValues alignment property.2 ((stateOf before).get property.1)
        ((stateOf after).get property.1) with
    | none => simp [unchanged_iff.mp compared]
    | some delta =>
        have different : ¬ Equivalent property.2 ((stateOf before).get property.1)
            ((stateOf after).get property.1) := by
          rw [← unchanged_iff, compared]
          exact fun none => nomatch none
        simp [different, ignored, Change.property?]

end Properties

section Graphs

/-- The properties of one id whose changes are due, behind `none` for a due change of the object
itself. -/
def due (types : TypeTable) (options : DiffOptions) :
    Option Node → Option Node → List (Option String)
  | none, none => []
  | none, some after =>
    none :: if options.initialChanges then (differing types none (some after)).map some else []
  | some before, none =>
    none :: if options.terminalChanges then (differing types (some before) none).map some else []
  | some before, some after => (differing types (some before) (some after)).map some

/-- A diff tells exactly how one graph differs from another. -/
structure Exact (types : TypeTable) (options : DiffOptions) (old new : Graph) (diff : Diff) :
    Prop where
  /-- Nodes come into being whose ids are only in the new graph. -/
  created : ∀ id, (∃ change ∈ diff.changes, change.target = id ∧ change.kind = .created) ↔
    id ∉ old.ids ∧ id ∈ new.ids
  /-- Nodes go away whose ids are only in the old graph. -/
  removed : ∀ id, (∃ change ∈ diff.changes, change.target = id ∧ change.kind = .removed) ↔
    id ∈ old.ids ∧ id ∉ new.ids
  /-- The changes of one id are those that are due, in this order. -/
  reported : ∀ id, (diff.changes.filter (·.target = id)).map Change.property? =
    due types options (old.find? id) (new.find? id)
  /-- The changes are in the order of the ids. -/
  ordered : diff.changes.Pairwise fun first second => (compare first.target second.target).isLE
  /-- No id has two changes of one property, or two of the object itself. -/
  once : (diff.changes.map fun change => (change.target, change.property?)).Nodup

variable {types : TypeTable} {options : DiffOptions} {old new : Graph} {id : GlobalId}

theorem properties_of_compareAt :
    (compareAt types options old new id).map Change.property? =
      due types options (old.find? id) (new.find? id) := by
  unfold compareAt due
  cases old.find? id <;> cases new.find? id
  case none.none => rfl
  case none.some after =>
    have there : (some after <|> none) = some after := rfl
    simp only [List.map_cons, apply_ite (List.map Change.property?), List.map_nil,
      properties_of_compareNodes options.alignment there]
    rfl
  case some.none before =>
    have there : (none <|> some before) = some before := rfl
    simp only [List.map_cons, apply_ite (List.map Change.property?), List.map_nil,
      properties_of_compareNodes options.alignment there]
    rfl
  case some.some before after =>
    exact properties_of_compareNodes options.alignment rfl

theorem nodup_due (types : TypeTable) (options : DiffOptions) (before after : Option Node) :
    (due types options before after).Nodup := by
  have properties (before after : Option Node) : ((differing types before after).map some).Nodup :=
    (nodup_differing types before after).map (Option.some_injective _)
  have behind (wanted : Bool) (before after : Option Node) :
      (none :: if wanted then (differing types before after).map some else []).Nodup := by
    cases wanted with
    | false => exact List.nodup_singleton _
    | true => exact List.nodup_cons.mpr ⟨by simp, properties before after⟩
  cases before <;> cases after
  · exact List.nodup_nil
  · exact behind _ _ _
  · exact behind _ _ _
  · exact properties _ _

theorem isSome_property?_of_mem_compareNodes {alignment : Alignment} {before after : Option Node}
    {node : Node} (picked : (after <|> before) = some node) {change : Change}
    (member : change ∈ compareNodes types alignment before after) : change.property?.isSome := by
  rw [compareNodes_eq types alignment picked] at member
  obtain ⟨property, -, reported⟩ := List.mem_filterMap.mp member
  obtain ⟨delta, -, rfl⟩ := Option.map_eq_some_iff.mp reported
  rfl

/-- An object comes into being or goes away only where it is on one side only. -/
theorem object_of_mem_compareAt {change : Change}
    (member : change ∈ compareAt types options old new id) (object : change.property? = none) :
    change.kind = .created ∧ id ∉ old.ids ∧ id ∈ new.ids ∨
      change.kind = .removed ∧ id ∈ old.ids ∧ id ∉ new.ids := by
  have excluded {before after : Option Node} {node : Node}
      (picked : (after <|> before) = some node)
      (member : change ∈ compareNodes types options.alignment before after) : False := by
    have named := isSome_property?_of_mem_compareNodes picked member
    rw [object] at named
    cases named
  simp only [Graph.mem_ids_iff]
  unfold compareAt at member
  cases old_found : old.find? id <;> cases new_found : new.find? id <;>
    simp only [old_found, new_found] at member
  case none.none => cases member
  case none.some after =>
    rcases List.mem_cons.mp member with rfl | member
    · simp
    · split at member
      next => exact (excluded rfl member).elim
      next => cases member
  case some.none before =>
    rcases List.mem_cons.mp member with rfl | member
    · simp
    · split at member
      next => exact (excluded rfl member).elim
      next => cases member
  case some.some => exact (excluded rfl member).elim

theorem exists_created (types : TypeTable) (options : DiffOptions) (absent : id ∉ old.ids)
    (present : id ∈ new.ids) :
    ∃ change ∈ compareAt types options old new id, change.kind = .created := by
  rw [Graph.mem_ids_iff, Option.not_isSome_iff_eq_none] at absent
  obtain ⟨node, found⟩ := Option.isSome_iff_exists.mp (Graph.mem_ids_iff.mp present)
  exact ⟨_, by rw [compareAt, absent, found]; exact List.mem_cons_self, rfl⟩

theorem exists_removed (types : TypeTable) (options : DiffOptions) (present : id ∈ old.ids)
    (absent : id ∉ new.ids) :
    ∃ change ∈ compareAt types options old new id, change.kind = .removed := by
  rw [Graph.mem_ids_iff, Option.not_isSome_iff_eq_none] at absent
  obtain ⟨node, found⟩ := Option.isSome_iff_exists.mp (Graph.mem_ids_iff.mp present)
  exact ⟨_, by rw [compareAt, absent, found]; exact List.mem_cons_self, rfl⟩

theorem mem_between_iff {change : Change} :
    change ∈ (Diff.between types options old new).changes ↔
      change ∈ compareAt types options old new change.target := by
  rw [← filter_between, List.mem_filter, decide_eq_true rfl, and_iff_left rfl]

/-- A diff holds exactly the changes that are due, in the order of the ids. -/
theorem exact_between (types : TypeTable) (options : DiffOptions) (old new : Graph) :
    Exact types options old new (Diff.between types options old new) where
  created id := by
    constructor
    · rintro ⟨change, member, rfl, kind⟩
      have object : change.property? = none := by rw [Change.property?, kind]
      rcases object_of_mem_compareAt (mem_between_iff.mp member) object with ⟨-, sides⟩ | ⟨other, -⟩
      · exact sides
      · cases kind.symm.trans other
    · rintro ⟨absent, present⟩
      obtain ⟨change, member, kind⟩ := exists_created types options absent present
      obtain rfl := target_of_mem_compareAt member
      exact ⟨change, mem_between_iff.mpr member, rfl, kind⟩
  removed id := by
    constructor
    · rintro ⟨change, member, rfl, kind⟩
      have object : change.property? = none := by rw [Change.property?, kind]
      rcases object_of_mem_compareAt (mem_between_iff.mp member) object with ⟨other, -⟩ | ⟨-, sides⟩
      · cases kind.symm.trans other
      · exact sides
    · rintro ⟨present, absent⟩
      obtain ⟨change, member, kind⟩ := exists_removed types options present absent
      obtain rfl := target_of_mem_compareAt member
      exact ⟨change, mem_between_iff.mpr member, rfl, kind⟩
  reported id := by
    rw [filter_between, properties_of_compareAt]
  ordered := by
    refine List.pairwise_flatMap.mpr ⟨fun id _ => ?_, ?_⟩
    · refine List.pairwise_of_forall_mem_list fun first first_mem second second_mem => ?_
      rw [target_of_mem_compareAt first_mem, target_of_mem_compareAt second_mem,
        show compare id id = .eq from Std.ReflCmp.compare_self]
      rfl
    · let ids : Table (id : GlobalId → GlobalId) := Table.ofList (old.ids ++ new.ids)
      refine ids.increasing.imp ?_
      intro first second less change change_mem other other_mem
      rw [target_of_mem_compareAt change_mem, target_of_mem_compareAt other_mem]
      rw [show compare first second = .lt from less]
      rfl
  once := by
    rw [List.Nodup, List.pairwise_map]
    refine List.pairwise_flatMap.mpr ⟨fun id _ => ?_, ?_⟩
    · have distinct := nodup_due types options (old.find? id) (new.find? id)
      rw [← properties_of_compareAt, List.Nodup, List.pairwise_map] at distinct
      exact distinct.imp fun different same => different (congrArg Prod.snd same)
    · refine (nodup_allIds old new).imp ?_
      intro first second different change change_mem other other_mem same
      rw [target_of_mem_compareAt change_mem, target_of_mem_compareAt other_mem] at same
      exact different (congrArg Prod.fst same)

end Graphs
end Comparison
end AuditTrail
