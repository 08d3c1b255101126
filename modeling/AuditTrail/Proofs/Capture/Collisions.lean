import AuditTrail.Proofs.Capture.Picture

/-!
# Names that do not collide

The name of a value object joins the places on the way to it.  As long as no place by which a node
names a value object is another such place, or the beginning of one up to a slash, the joined text
can be taken apart again, and no two value objects have the same name.
-/

namespace AuditTrail

open Schema

namespace GlobalId

/-- The id at the end of a way down through the given places. -/
def descend (id : GlobalId) (places : List String) : GlobalId := places.foldl child id

/-- What places further down add to the text of a place. -/
def wayOn : List String → String
  | [] => ""
  | place :: rest => "/" ++ place ++ wayOn rest

theorem child_child (id : GlobalId) (place other : String) :
    (id.child place).child other = id.child (place ++ "/" ++ other) := by
  cases id <;> simp only [child, String.append_assoc]

theorem child_injective (id : GlobalId) : Function.Injective id.child := by
  intro place other same
  cases id with
  | entity | unbounded => exact (owned.inj same).2
  | owned => exact (String.append_right_inj _).mp (owned.inj same).2

theorem descend_cons (id : GlobalId) (place : String) (places : List String) :
    id.descend (place :: places) = id.child (place ++ wayOn places) := by
  induction places generalizing id place with
  | nil => rw [wayOn, String.append_empty]; rfl
  | cons next rest induction =>
      have further : id.descend (place :: next :: rest) = (id.child place).descend (next :: rest) :=
        rfl
      rw [further, induction, child_child, wayOn]
      simp only [String.append_assoc]

theorem descend_append_singleton (id : GlobalId) (places : List String) (place : String) :
    id.descend (places ++ [place]) = (id.descend places).child place := by
  rw [descend, descend, List.foldl_append, List.foldl_cons, List.foldl_nil]

theorem child_ne (id : GlobalId) (place : String) : id.child place ≠ id := by
  cases id with
  | entity | unbounded => exact fun same => nomatch same
  | owned owner own =>
      intro same
      have longer := congrArg String.length (owned.inj same).2
      rw [String.length_append, String.length_append] at longer
      have slash : "/".length = 1 := rfl
      omega

theorem root_child (id : GlobalId) (place : String) : (id.child place).root = id.root := by
  cases id <;> rfl

theorem root_eq_self {id : GlobalId} (top : id.path = []) : id.root = id := by
  cases id with
  | entity | unbounded => rfl
  | owned => simp [path] at top

/-- What lies below an id is printed longer. -/
theorem length_display_lt_child (id : GlobalId) (place : String) :
    id.display.length < (id.child place).display.length := by
  have hash : "#".length = 1 := rfl
  have slash : "/".length = 1 := rfl
  cases id <;> simp only [child, display, String.length_append] <;> omega

theorem path_child_ne_nil (id : GlobalId) (place : String) : (id.child place).path ≠ [] := by
  cases id <;> simp [child, path]

end GlobalId

/-- Neither of two places is the other, or the beginning of the other up to a slash. -/
def PlaceApart (place other : String) : Prop :=
  place ≠ other ∧ ¬ (place ++ "/").toList <+: other.toList ∧
    ¬ (other ++ "/").toList <+: place.toList
deriving Decidable

theorem PlaceApart.symm {place other : String} (apart : PlaceApart place other) :
    PlaceApart other place :=
  ⟨apart.1.symm, apart.2.2, apart.2.1⟩

private theorem isPrefix_of_longer {place other : String} {places others : List String}
    {between : List Char} (nonempty : between ≠ [])
    (longer : other.toList = place.toList ++ between)
    (rest : (GlobalId.wayOn places).toList = between ++ (GlobalId.wayOn others).toList) :
    (place ++ "/").toList <+: other.toList := by
  obtain ⟨first, later, rfl⟩ := List.exists_cons_of_ne_nil nonempty
  cases places with
  | nil => cases rest
  | cons next places =>
      have slash : (GlobalId.wayOn (next :: places)).toList =
          '/' :: (next ++ GlobalId.wayOn places).toList := by
        rw [GlobalId.wayOn, String.append_assoc, String.toList_append]
        rfl
      obtain ⟨rfl, -⟩ := List.cons.inj (slash.symm.trans rest)
      refine ⟨later, ?_⟩
      rw [longer, String.toList_append, List.append_assoc]
      rfl

/-- Ways down that start apart do not come together. -/
theorem PlaceApart.append_wayOn_ne {place other : String} (apart : PlaceApart place other)
    (places others : List String) :
    place ++ GlobalId.wayOn places ≠ other ++ GlobalId.wayOn others := by
  intro same
  rw [← String.toList_inj, String.toList_append, String.toList_append,
    List.append_eq_append_iff] at same
  rcases same with ⟨between, longer, rest⟩ | ⟨between, longer, rest⟩
  · by_cases nothing : between = []
    · rw [nothing, List.append_nil, String.toList_inj] at longer
      exact apart.1 longer.symm
    · exact apart.2.1 (isPrefix_of_longer nothing longer rest)
  · by_cases nothing : between = []
    · rw [nothing, List.append_nil, String.toList_inj] at longer
      exact apart.1 longer
    · exact apart.2.2 (isPrefix_of_longer nothing longer rest)

namespace Node

/-- Whether a reference of a node goes by the name of its place there. -/
def gives (node : Node) (entry : String × GlobalId) : Bool := entry.2 == node.id.child entry.1

/-- The places at which a node refers to value objects that are named by these places. -/
def givenPlaces (node : Node) : List String :=
  ((node.state.entries.flatMap fun entry => entry.2.places Value.display entry.1).filter
    node.gives).map Prod.fst

/-- The places by which a node names value objects are apart from each other. -/
def PlacesApart (node : Node) : Prop := node.givenPlaces.Pairwise PlaceApart
deriving Decidable

variable {node : Node}

/-- Different properties give names at places that are apart. -/
theorem PlacesApart.across (apart : node.PlacesApart) {first second : String × Captured}
    (first_mem : first ∈ node.state.entries) (second_mem : second ∈ node.state.entries)
    (different : first ≠ second) {here there : String × GlobalId}
    (here_mem : here ∈ first.2.places Value.display first.1)
    (there_mem : there ∈ second.2.places Value.display second.1)
    (here_given : node.gives here) (there_given : node.gives there) :
    PlaceApart here.1 there.1 := by
  let across (entry other : String × Captured) : Prop :=
    ∀ here ∈ entry.2.places Value.display entry.1, ∀ there ∈ other.2.places Value.display other.1,
      node.gives here → node.gives there → PlaceApart here.1 there.1
  have symmetric : Std.Symm across := ⟨fun entry other apart there there_mem here here_mem
    there_given here_given => (apart here here_mem there there_mem here_given there_given).symm⟩
  have pairs := (List.pairwise_flatMap.mp (List.pairwise_filter.mp (List.pairwise_map.mp apart))).2
  exact (List.Pairwise.forall (R := across) pairs) first_mem second_mem different here here_mem
    there there_mem here_given there_given

/-- One property gives names at places that are apart. -/
theorem PlacesApart.within (apart : node.PlacesApart) {entry : String × Captured}
    (member : entry ∈ node.state.entries) : (entry.2.places Value.display entry.1).Pairwise
      fun here there => node.gives here → node.gives there → PlaceApart here.1 there.1 :=
  (List.pairwise_flatMap.mp (List.pairwise_filter.mp (List.pairwise_map.mp apart))).1 entry member

end Node

namespace Graph

/-- A way down from a node along places that give names. -/
def Leads (graph : Graph) : GlobalId → List String → Prop
  | _, [] => True
  | id, place :: rest =>
    (∃ node, graph.find? id = some node ∧ place ∈ node.givenPlaces) ∧
      Leads graph (id.child place) rest

variable {graph : Graph}

theorem leads_append_singleton {id : GlobalId} {places : List String} {place : String} :
    graph.Leads id (places ++ [place]) ↔ graph.Leads id places ∧
      ∃ node, graph.find? (id.descend places) = some node ∧ place ∈ node.givenPlaces := by
  induction places generalizing id with
  | nil => simp [Leads, GlobalId.descend]
  | cons first rest induction =>
      rw [List.cons_append, Leads, Leads, induction, and_assoc]
      rfl

/-- Where places are apart, an id says which way leads to it. -/
theorem Leads.unique (apart : ∀ node ∈ graph.nodes.rows, node.PlacesApart) {id : GlobalId}
    {places others : List String} (leads : graph.Leads id places) (also : graph.Leads id others)
    (same : id.descend places = id.descend others) : places = others := by
  induction places generalizing id others with
  | nil =>
      cases others with
      | nil => rfl
      | cons place rest =>
          rw [GlobalId.descend_cons] at same
          exact absurd same.symm (GlobalId.child_ne _ _)
  | cons place rest induction =>
      cases others with
      | nil =>
          rw [GlobalId.descend_cons] at same
          exact absurd same (GlobalId.child_ne _ _)
      | cons other more =>
          obtain ⟨⟨node, found, lies⟩, rest_leads⟩ := leads
          obtain ⟨⟨_, also_found, also_lies⟩, more_leads⟩ := also
          obtain rfl := Option.some.inj (found.symm.trans also_found)
          have places_apart := apart node (mem_rows_of_find? found)
          have symmetric : Std.Symm PlaceApart := ⟨fun _ _ => PlaceApart.symm⟩
          obtain rfl : place = other := by
            by_contra different
            have joined := same
            rw [GlobalId.descend_cons, GlobalId.descend_cons] at joined
            have apart := List.Pairwise.forall places_apart lies also_lies different
            exact apart.append_wayOn_ne rest more (GlobalId.child_injective id joined)
          rw [induction rest_leads more_leads same]

end Graph

namespace Capture

section Injective

variable {types : TypeTable} {heap : Heap} {roots : List Slot} {graph : Graph} {last : Walk}
  {node : Node} {slot target other : Slot} {object : Instance} {managed : ManagedType}
  {id : GlobalId} {place : String} {definitions : List Definition}

/-- What an instance refers to at a place is what its node refers to there. -/
theorem Portrays.mem_places (portrays : Portrays types heap roots last node slot object managed)
    {entry : String × Live} (kept_entry : entry ∈ kept types object managed.properties)
    (lies : (place, target) ∈ entry.2.places (last.print types heap) entry.1)
    (named : last.nameOf types heap target = some id) :
    (entry.1, node.state.get entry.1) ∈ node.state.entries ∧
      (place, id) ∈ (node.state.get entry.1).places Value.display entry.1 := by
  have there : (place, id) ∈ (node.state.get entry.1).places Value.display entry.1 := by
    rw [portrays.depicts.get_of_kept kept_entry, Value.places_relink, List.mem_filterMap]
    exact ⟨_, lies, by rw [Value.relinkPlace, named]; rfl⟩
  refine ⟨State.mem_entries_of_get_ne_null fun null => ?_, there⟩
  rw [null, Value.places] at there
  cases there

theorem Portrays.mem_givenPlaces
    (portrays : Portrays types heap roots last node slot object managed)
    (lies : (place, target) ∈ placesOf types heap last object managed.properties)
    (named : last.nameOf types heap target = some (node.id.child place)) :
    place ∈ node.givenPlaces := by
  obtain ⟨entry, kept_entry, lies⟩ := List.mem_flatMap.mp lies
  obtain ⟨stored, there⟩ := portrays.mem_places kept_entry lies named
  exact List.mem_map.mpr ⟨_, List.mem_filter.mpr
    ⟨List.mem_flatMap.mpr ⟨_, stored, there⟩, beq_self_eq_true _⟩, rfl⟩

/-- An instance names one value object at most by a place, if the places are apart. -/
theorem Portrays.eq_of_place (portrays : Portrays types heap roots last node slot object managed)
    (apart : node.PlacesApart)
    (lies : (place, target) ∈ placesOf types heap last object managed.properties)
    (named : last.nameOf types heap target = some (node.id.child place))
    (also_lies : (place, other) ∈ placesOf types heap last object managed.properties)
    (also_named : last.nameOf types heap other = some (node.id.child place)) : target = other := by
  obtain ⟨entry, kept_entry, lies⟩ := List.mem_flatMap.mp lies
  obtain ⟨also, also_kept, also_lies⟩ := List.mem_flatMap.mp also_lies
  obtain ⟨stored, there⟩ := portrays.mem_places kept_entry lies named
  obtain ⟨also_stored, also_there⟩ := portrays.mem_places also_kept also_lies also_named
  have given : node.gives (place, node.id.child place) := beq_self_eq_true _
  by_cases same_property : entry.1 = also.1
  · obtain ⟨_, -, -, -, set⟩ := mem_kept_iff.mp kept_entry
    obtain ⟨_, -, -, -, also_set⟩ := mem_kept_iff.mp also_kept
    rw [← same_property, set] at also_set
    rw [← same_property, ← Option.some.inj also_set] at also_lies
    by_contra different
    have within := apart.within stored
    rw [portrays.depicts.get_of_kept kept_entry, Value.places_relink,
      List.pairwise_filterMap] at within
    have symmetric : Std.Symm fun here there : String × Slot =>
        ∀ reference, Value.relinkPlace (last.nameOf types heap) here = some reference →
          ∀ other, Value.relinkPlace (last.nameOf types heap) there = some other →
            node.gives reference → node.gives other → PlaceApart reference.1 other.1 :=
      ⟨fun _ _ apart _ there_link _ here_link there_given here_given =>
        (apart _ here_link _ there_link here_given there_given).symm⟩
    have linked {slot : Slot} (named : last.nameOf types heap slot = some (node.id.child place)) :
        Value.relinkPlace (last.nameOf types heap) (place, slot) =
          some (place, node.id.child place) := by
      rw [Value.relinkPlace, named]
      rfl
    have apart_self := within.forall lies also_lies (fun same => different (congrArg Prod.snd same))
      _ (linked named) _ (linked also_named) given given
    exact apart_self.1 rfl
  · have different : (entry.1, node.state.get entry.1) ≠ (also.1, node.state.get also.1) :=
      fun same => same_property (Prod.mk.inj same).1
    exact absurd rfl (apart.across stored also_stored different there also_there given given).1

/-- No property of a reachable instance is declared as a set or contains one. -/
def SetFree (types : TypeTable) (heap : Heap) (roots : List Slot) : Prop :=
  ∀ slot object managed, Reachable types heap roots slot → heap.get? slot = some object →
    types.managedOf? object.className = some managed →
      ∀ property ∈ managed.properties, property.type.isSetFree

/-- Identities, roots and types leave no doubt about names. -/
structure Unambiguous (types : TypeTable) (heap : Heap) (roots : List Slot) : Prop where
  /-- Reachable entities have different identities. -/
  identified : ∀ slot other id, Reachable types heap roots slot →
    Reachable types heap roots other → referentAt types heap slot = .ok (.entity id) →
      referentAt types heap other = .ok (.entity id) → slot = other
  /-- One root at most is a value object. -/
  single : ∀ slot ∈ roots, ∀ other ∈ roots, ∀ object managed twin type,
    referentAt types heap slot = .ok (.valueObject object managed) →
      referentAt types heap other = .ok (.valueObject twin type) → slot = other
  /-- No reachable property is a set or contains one. -/
  setFree : SetFree types heap roots

/-- A value object is named as a root, or as what lies at a place below a node. -/
theorem Outcome.source (outcome : Outcome types heap roots graph last)
    (setFree : SetFree types heap roots) (named : last.nameOf types heap target = some id)
    (plain : id.isValueObject) : (target ∈ roots ∧ rootId types heap target = .ok id) ∨
      ∃ node ∈ graph.nodes.rows, ∃ slot object managed place,
        Portrays types heap roots last node slot object managed ∧ id = node.id.child place ∧
          (place, target) ∈ placesOf types heap last object managed.properties := by
  refine (outcome.sources _ (mem_names_of_nameOf outcome.proper named plain)).imp_right ?_
  rintro ⟨node, stored, slot, object, managed, place, portrays, below, lies⟩
  exact ⟨node, stored, slot, object, managed, place, portrays, below,
    lies (setFree slot object managed portrays.reachable portrays.stands portrays.depicts.typed)⟩

theorem path_of_rootId (identified : rootId types heap slot = .ok id) : id.path = [] := by
  obtain ⟨object, -, identified⟩ := bind_eq_ok_iff.mp identified
  obtain ⟨managed, -, identified⟩ := bind_eq_ok_iff.mp identified
  split at identified
  · obtain ⟨_, _, _, -, -, -, rfl⟩ := entityId_eq_ok_iff.mp identified
    rfl
  · cases identified
    rfl

theorem leads_further (stored : node ∈ graph.nodes.rows) {places : List String}
    (leads : graph.Leads node.id.root places) (there : node.id.root.descend places = node.id)
    (given : place ∈ node.givenPlaces) : graph.Leads node.id.root (places ++ [place]) := by
  refine Graph.leads_append_singleton.mpr ⟨leads, node, ?_, given⟩
  rw [there]
  exact Table.find?_key stored

/-- A way of places of value objects leads from the root of an id to the id. -/
theorem Outcome.leads (outcome : Outcome types heap roots graph last)
    (setFree : SetFree types heap roots) (named : last.nameOf types heap slot = some id) :
    ∃ places, graph.Leads id.root places ∧ id.root.descend places = id := by
  induction room : id.display.length using Nat.strong_induction_on generalizing slot id with
  | h room induction =>
      by_cases plain : id.isValueObject
      · rcases outcome.source setFree named plain with ⟨-, identified⟩ |
          ⟨node, stored, source, object, managed, place, portrays, rfl, lies⟩
        · exact ⟨[], trivial, GlobalId.root_eq_self (path_of_rootId identified)⟩
        · obtain ⟨places, leads, there⟩ := induction _
            (room ▸ GlobalId.length_display_lt_child node.id place) portrays.named rfl
          rw [GlobalId.root_child]
          refine ⟨places ++ [place],
            leads_further stored leads there (portrays.mem_givenPlaces lies named), ?_⟩
          rw [GlobalId.descend_append_singleton, there]
      · refine ⟨[], trivial, GlobalId.root_eq_self ?_⟩
        cases id with
        | entity => rfl
        | unbounded | owned => exact absurd rfl plain

/-- An id is a place below one node at most, because the way to it can be read off it. -/
theorem Outcome.below_unique {also : Node} {twin : Instance} {type : ManagedType}
    {also_place : String} (outcome : Outcome types heap roots graph last)
    (setFree : SetFree types heap roots) (apart : ∀ node ∈ graph.nodes.rows, node.PlacesApart)
    (stored : node ∈ graph.nodes.rows) (also_stored : also ∈ graph.nodes.rows)
    (portrays : Portrays types heap roots last node slot object managed)
    (also_portrays : Portrays types heap roots last also other twin type)
    (given : place ∈ node.givenPlaces) (also_given : also_place ∈ also.givenPlaces)
    (same : node.id.child place = also.id.child also_place) :
    node = also ∧ place = also_place := by
  obtain ⟨places, leads, there⟩ := outcome.leads setFree portrays.named
  obtain ⟨others, also_leads, also_there⟩ := outcome.leads setFree also_portrays.named
  have further := leads_further stored leads there given
  have also_further := leads_further also_stored also_leads also_there also_given
  have same_root : node.id.root = also.id.root := by
    rw [← GlobalId.root_child node.id place, same, GlobalId.root_child]
  rw [← same_root] at also_further also_there
  have same_way : places ++ [place] = others ++ [also_place] := by
    refine Graph.Leads.unique apart further also_further ?_
    rw [GlobalId.descend_append_singleton, GlobalId.descend_append_singleton, there, also_there,
      same]
  obtain ⟨rfl, last_places⟩ := List.append_inj' same_way rfl
  exact ⟨Table.eq_of_key_eq stored also_stored (there.symm.trans also_there),
    List.singleton_inj.mp last_places⟩

/-- Roots that are value objects are one root. -/
theorem Unambiguous.eq_of_rootIds (accepted : TypeTable.ofDefinitions definitions = .ok types)
    (clear : Unambiguous types heap roots) (plain : id.isValueObject) (root : slot ∈ roots)
    (also_root : other ∈ roots) (named : rootId types heap slot = .ok id)
    (also_named : rootId types heap other = .ok id) : slot = other := by
  have valueObject {slot : Slot} (named : rootId types heap slot = .ok id) :
      ∃ object managed, referentAt types heap slot = .ok (.valueObject object managed) := by
    rcases (rootId_eq_ok_iff_referentAt accepted).mp named with found | ⟨_, _, found, -⟩
    · exact absurd plain (not_isValueObject_of_entity found)
    · exact ⟨_, _, found⟩
  obtain ⟨object, managed, found⟩ := valueObject named
  obtain ⟨twin, type, also_found⟩ := valueObject also_named
  exact clear.single slot root other also_root object managed twin type found also_found

/-- Reachable instances have different names: entities by assumption, value objects because the way
to them can be read off their names. -/
theorem Outcome.injOn (accepted : TypeTable.ofDefinitions definitions = .ok types)
    (outcome : Outcome types heap roots graph last) (clear : Unambiguous types heap roots)
    (apart : ∀ node ∈ graph.nodes.rows, node.PlacesApart)
    (reachable : Reachable types heap roots slot)
    (also_reachable : Reachable types heap roots other)
    (named : last.nameOf types heap slot = some id)
    (also_named : last.nameOf types heap other = some id) : slot = other := by
  induction room : id.display.length using Nat.strong_induction_on generalizing slot other id with
  | h room induction =>
      by_cases plain : id.isValueObject
      · rcases outcome.source clear.setFree named plain with ⟨root, root_named⟩ |
            ⟨node, stored, source, object, managed, place, portrays, rfl, lies⟩ <;>
          rcases outcome.source clear.setFree also_named plain with ⟨also_root, also_root_named⟩ |
            ⟨also, also_stored, also_source, twin, type, also_place, also_portrays, same, also_lies⟩
        · exact clear.eq_of_rootIds accepted plain root also_root root_named also_root_named
        · rw [same] at root_named
          exact absurd (path_of_rootId root_named) (GlobalId.path_child_ne_nil _ _)
        · exact absurd (path_of_rootId also_root_named) (GlobalId.path_child_ne_nil _ _)
        · obtain ⟨rfl, rfl⟩ := outcome.below_unique clear.setFree apart stored also_stored portrays
            also_portrays (portrays.mem_givenPlaces lies named)
            (also_portrays.mem_givenPlaces also_lies (same ▸ also_named)) same
          -- The node portrays one instance, for its id is shorter than that of the place.
          obtain rfl := induction _ (room ▸ GlobalId.length_display_lt_child node.id place)
            portrays.reachable also_portrays.reachable portrays.named also_portrays.named rfl
          obtain rfl := Option.some.inj (portrays.stands.symm.trans also_portrays.stands)
          obtain rfl :=
            Option.some.inj (portrays.depicts.typed.symm.trans also_portrays.depicts.typed)
          exact portrays.eq_of_place (apart node stored) lies named also_lies also_named
      · have entity {slot : Slot} (named : last.nameOf types heap slot = some id) :
            referentAt types heap slot = .ok (.entity id) := by
          rcases nameOf_eq_some_iff.mp named with found | ⟨_, _, -, given⟩
          · exact found
          · exact absurd (outcome.proper.owned _ (outcome.proper.name?_eq_some_iff.mp given)) plain
        exact clear.identified slot other id reachable also_reachable (entity named)
          (entity also_named)

theorem heeded_of_typed (accepted : TypeTable.ofDefinitions definitions = .ok types)
    (stands : heap.get? slot = some object)
    (typed : types.managedOf? object.className = some managed) :
    referentAt types heap slot ≠ .ok .skipped := by
  intro skipped
  obtain ⟨other, other_stands, skipped⟩ := bind_eq_ok_iff.mp skipped
  obtain rfl := Option.some.inj (stands.symm.trans (instanceAt_eq_ok_iff.mp other_stands))
  rw [if_neg (TypeTable.heeded_of_ofDefinitions accepted typed)] at skipped
  obtain ⟨_, -, skipped⟩ := bind_eq_ok_iff.mp skipped
  split at skipped
  · obtain ⟨_, -, skipped⟩ := bind_eq_ok_iff.mp skipped
    cases skipped
  · cases skipped

/-- If reachable instances have different names, each of them has a node. -/
theorem Outcome.named (accepted : TypeTable.ofDefinitions definitions = .ok types)
    (outcome : Outcome types heap roots graph last)
    (injective : ∀ slot other id, Reachable types heap roots slot →
      Reachable types heap roots other → last.nameOf types heap slot = some id →
        last.nameOf types heap other = some id → slot = other)
    (reachable : Reachable types heap roots slot) :
    ∃ id ∈ graph.ids, last.nameOf types heap slot = some id := by
  obtain ⟨⟨root, root_mem, reached⟩, heeded⟩ := reachable
  induction reached with
  | root =>
      have named : last.nameOf types heap root ∈ graph.roots.map some := by
        rw [outcome.rootIds]
        exact List.mem_map_of_mem root_mem
      obtain ⟨id, member, same⟩ := List.mem_map.mp named
      exact ⟨id, outcome.rooted member, same.symm⟩
  | @step owner target object managed entry reached stands typed kept_entry refers induction =>
      have owner_heeded := heeded_of_typed accepted stands typed
      obtain ⟨id, member, owner_named⟩ := induction owner_heeded
      obtain ⟨node, stored, rfl⟩ := List.mem_map.mp member
      obtain ⟨source, instance_, type, portrays⟩ := outcome.portrays node stored
      obtain rfl := injective source owner node.id portrays.reachable
        ⟨⟨root, root_mem, reached⟩, owner_heeded⟩ portrays.named owner_named
      obtain rfl := Option.some.inj (portrays.stands.symm.trans stands)
      obtain rfl := Option.some.inj (portrays.depicts.typed.symm.trans typed)
      rcases portrays.depicts.settled entry kept_entry target refers with skipped | ⟨id, named⟩
      · exact absurd skipped heeded
      · exact ⟨id, outcome.closed node stored id
          (portrays.depicts.refers kept_entry refers named), named⟩

/-- Where reachable entities have different identities, one root at most is a value object, no
reachable property is a set, and the places by which a node names value objects are apart, the graph
has one node for each reachable instance: no two of them have the same name. -/
theorem bijOn_capture (accepted : TypeTable.ofDefinitions definitions = .ok types)
    (captured : capture types heap roots = .ok graph) (clear : Unambiguous types heap roots)
    (apart : ∀ node ∈ graph.nodes.rows, node.PlacesApart) :
    ∃ naming, Pictures types heap roots graph naming ∧
      Set.BijOn naming {slot | Reachable types heap roots slot}
        (some '' {id | id ∈ graph.ids}) := by
  obtain ⟨last, captured⟩ := capture_eq_ok_iff.mp captured
  have outcome := outcome_of_captureWalk accepted captured
  have injective (slot other : Slot) (id : GlobalId) (reachable : Reachable types heap roots slot)
      (also_reachable : Reachable types heap roots other)
      (named : last.nameOf types heap slot = some id)
      (also_named : last.nameOf types heap other = some id) : slot = other :=
    outcome.injOn accepted clear apart reachable also_reachable named also_named
  refine ⟨last.nameOf types heap, outcome.pictures, fun slot reachable => ?_,
    fun slot reachable other also_reachable same => ?_, ?_⟩
  · obtain ⟨id, member, named⟩ := outcome.named accepted injective reachable
    exact ⟨id, member, named.symm⟩
  · obtain ⟨id, -, named⟩ := outcome.named accepted injective reachable
    exact injective slot other id reachable also_reachable named (same.symm.trans named)
  · rintro _ ⟨id, member, rfl⟩
    obtain ⟨node, stored, rfl⟩ := List.mem_map.mp member
    obtain ⟨slot, _, _, portrays⟩ := outcome.portrays node stored
    exact ⟨slot, portrays.reachable, portrays.named⟩

end Injective

section Links

/-- Users have places, each of them a link that may lead on to another one. -/
def linkDefinitions : List Definition :=
  [.entity ⟨"User", none, [⟨"id", .named "int", true, false⟩,
      ⟨"places", .map (.named "string") (.named "Link"), false, false⟩], []⟩ none,
    .valueObject ⟨"Link", none, [⟨"next", .named "Link", false, false⟩], []⟩]

/-- The type of users. -/
def userType : ManagedType :=
  ⟨"User", "User", .entity, some "id",
    [⟨"id", .named "int"⟩, ⟨"places", .map (.named "string") (.named "Link")⟩]⟩

/-- The table of both classes. -/
def linkTypes : TypeTable :=
  ⟨[userType, ⟨"Link", "Link", .valueObject, none, [⟨"next", .named "Link"⟩]⟩], [], [], []⟩

/-- A user with two places of the given names. -/
def userWith (first second : String) : Instance :=
  .ofList "User" [("id", .scalar (.int 1)),
    ("places", .map [(.scalar (.text first), .ref 1), (.scalar (.text second), .ref 3)])]

/-- The user and the places, the first of which leads on to a third link. -/
def linked (first second : String) : Heap :=
  ⟨[userWith first second, .ofList "Link" [("next", .ref 2)], .ofClass "Link", .ofClass "Link"]⟩

theorem accepts_linkDefinitions : TypeTable.ofDefinitions linkDefinitions = .ok linkTypes := rfl

variable {first second : String} {slot : Slot}

/-- The user is the only entity. -/
theorem eq_zero_of_entity {id : GlobalId}
    (found : referentAt linkTypes (linked first second) slot = .ok (.entity id)) : slot = 0 := by
  obtain ⟨object, managed, stands, -, typed, entity, -⟩ := referentAt_eq_entity_iff.mp found
  have inside : slot < 4 := (List.getElem?_eq_some_iff.mp stands).1
  by_contra later
  have link : object.className = "Link" := by
    interval_cases slot <;> first | exact absurd rfl later | (cases stands; rfl)
  rw [link] at typed
  cases typed
  cases entity

theorem unambiguous_linked : Unambiguous linkTypes (linked first second) [0] where
  identified slot other id _ _ found also_found := by
    rw [eq_zero_of_entity found, eq_zero_of_entity also_found]
  single slot member other also_member _ _ _ _ _ _ := by
    rw [List.mem_singleton.mp member, List.mem_singleton.mp also_member]
  setFree slot object managed _ _ typed := by
    have all : ∀ managed ∈ linkTypes.managed, ∀ property ∈ managed.properties,
        property.type.isSetFree := by decide
    exact all managed (List.mem_of_find?_eq_some typed)

/-- The two places and the third link have names of their own. -/
theorem bijOn_capture_linked : ∃ graph, capture linkTypes (linked "home" "work") [0] = .ok graph ∧
    graph.size = 4 ∧ ∃ naming, Pictures linkTypes (linked "home" "work") [0] graph naming ∧
      Set.BijOn naming {slot | Reachable linkTypes (linked "home" "work") [0] slot}
        (some '' {id | id ∈ graph.ids}) :=
  ⟨_, rfl, by decide +kernel,
    bijOn_capture accepts_linkDefinitions rfl unambiguous_linked (by decide +kernel)⟩

/-- Everything in the heap is reachable. -/
theorem reachable_linked (inside : slot < 4) :
    Reachable linkTypes (linked first second) [0] slot := by
  have places : ("places", .map [(.scalar (.text first), .ref 1), (.scalar (.text second), .ref 3)])
      ∈ kept linkTypes (userWith first second) userType.properties :=
    List.mem_cons_of_mem _ List.mem_cons_self
  have home : Reached linkTypes (linked first second) 0 1 :=
    .step .root rfl rfl places (by simp [Value.references, Value.referencesOfEntries])
  have work : Reached linkTypes (linked first second) 0 3 :=
    .step .root rfl rfl places (by simp [Value.references, Value.referencesOfEntries])
  have further : Reached linkTypes (linked first second) 0 2 :=
    .step home rfl rfl List.mem_cons_self (List.mem_singleton_self 2)
  have reachable {slot : Slot} {object : Instance} {managed : ManagedType}
      (reached : Reached linkTypes (linked first second) 0 slot)
      (stands : (linked first second).get? slot = some object)
      (typed : linkTypes.managedOf? object.className = some managed) :
      Reachable linkTypes (linked first second) [0] slot :=
    ⟨⟨0, List.mem_singleton_self 0, reached⟩,
      heeded_of_typed accepts_linkDefinitions stands typed⟩
  interval_cases slot
  · exact reachable .root rfl rfl
  · exact reachable home rfl rfl
  · exact reachable further rfl rfl
  · exact reachable work rfl rfl

/-- Where the name of one place goes on as the way from the other one does, two links get one name,
and the graph has fewer nodes than there are reachable instances. -/
theorem not_bijOn_capture_slash : Unambiguous linkTypes (linked "home" "home/next") [0] ∧
    ∃ graph, capture linkTypes (linked "home" "home/next") [0] = .ok graph ∧
      ¬ ∃ naming : Slot → Option GlobalId,
        Set.BijOn naming {slot | Reachable linkTypes (linked "home" "home/next") [0] slot}
          (some '' {id | id ∈ graph.ids}) := by
  refine ⟨unambiguous_linked, _, rfl, ?_⟩
  rintro ⟨naming, maps, injective, -⟩
  have few := Finset.card_le_card_of_injOn naming (s := Finset.range 4)
    (t := (Graph.ids _).toFinset.map ⟨some, Option.some_injective _⟩)
    (fun slot member => by
      obtain ⟨id, stored, named⟩ := maps (reachable_linked (Finset.mem_range.mp member))
      rw [← named]
      exact Finset.mem_map.mpr ⟨id, List.mem_toFinset.mpr stored, rfl⟩)
    (fun slot member other also_member =>
      injective (reachable_linked (Finset.mem_range.mp (Finset.mem_coe.mp member)))
        (reachable_linked (Finset.mem_range.mp (Finset.mem_coe.mp also_member))))
  rw [Finset.card_map] at few
  exact absurd few (by decide +kernel)

end Links

end Capture
end AuditTrail
