import AuditTrail.Capture.Walk
import AuditTrail.Proofs.Except
import AuditTrail.Proofs.Graph
import AuditTrail.Proofs.State

/-!
# Captured graphs

Whatever a capture refers to is a node already or waits to become one, and a capture ends when
nothing waits.  So every reference in a captured graph leads to a node of the graph, and every node
has the properties of its managed type, those of ignored types left out.
-/

namespace AuditTrail

open Schema

/-- Every reference leads to a node of the graph. -/
def Graph.Closed (graph : Graph) : Prop :=
  ∀ node ∈ graph.nodes.rows, ∀ id ∈ node.state.references, id ∈ graph.ids

/-- The ids that references lead to from a node of a graph. -/
inductive Graph.Reaches (graph : Graph) (root : GlobalId) : GlobalId → Prop
  /-- The root itself. -/
  | root : Reaches graph root root
  /-- What the node of such an id refers to. -/
  | step {owner target node} (reached : Reaches graph root owner)
      (found : graph.find? owner = some node) (refers : target ∈ node.state.references) :
      Reaches graph root target

/-- In a closed graph, references lead to nodes only. -/
theorem Graph.Reaches.mem_ids {graph : Graph} {root id : GlobalId} (closed : graph.Closed)
    (member : root ∈ graph.ids) (reached : graph.Reaches root id) : id ∈ graph.ids := by
  cases reached with
  | root => exact member
  | step _ found refers => exact closed _ (mem_rows_of_find? found) id refers

theorem Graph.Reaches.trans {graph : Graph} {first second third : GlobalId}
    (reached : graph.Reaches first second) (further : graph.Reaches second third) :
    graph.Reaches first third := by
  induction further with
  | root => exact reached
  | step _ found refers induction => exact .step induction found refers

/-- A node is as captures make it. -/
structure Node.Formed (types : TypeTable) (node : Node) : Prop where
  /-- No property is stored twice. -/
  distinct : node.state.names.Nodup
  /-- The node is of a managed type, and what is stored are properties of it that are not
  ignored. -/
  typed : ∃ managed ∈ types.managed, managed.typeName = node.typeName ∧
    ∀ name ∈ node.state.names, ∃ property ∈ managed.properties, property.name = name ∧
      ¬ (types.classify property.type).isIgnored

namespace Capture

/-- An id is a node already, or its object waits. -/
def Walk.Covers (walk : Walk) (done : List GlobalId) (id : GlobalId) : Prop :=
  id ∈ done ∨ id ∈ walk.pending.map Prod.snd

/-- Names are given only to objects that are nodes already or wait. -/
def Walk.Named (walk : Walk) (done : List GlobalId) : Prop :=
  ∀ entry ∈ walk.names, walk.Covers done entry.2

/-- A walk goes on, and what it has come to refer to is covered. -/
structure Goes (done : List GlobalId) (before after : Walk) (references : List GlobalId) :
    Prop where
  /-- What waited still waits. -/
  waiting : before.pending ⊆ after.pending
  /-- Named objects are covered. -/
  named : after.Named done
  /-- References are covered. -/
  covered : ∀ id ∈ references, after.Covers done id

section Walks

variable {done : List GlobalId} {before between after walk : Walk}
  {references more : List GlobalId} {id : GlobalId} {slot : Slot}

theorem Walk.Covers.of_subset (covers : before.Covers done id)
    (waiting : before.pending ⊆ after.pending) : after.Covers done id :=
  covers.imp_right fun member => List.map_subset _ waiting member

theorem Goes.refl (named : walk.Named done) : Goes done walk walk [] where
  waiting := fun _ member => member
  named := named
  covered _ member := nomatch member

theorem Goes.trans (first : Goes done before between references)
    (second : Goes done between after more) : Goes done before after (references ++ more) where
  waiting := fun _ member => second.waiting (first.waiting member)
  named := second.named
  covered id member := by
    rcases List.mem_append.mp member with member | member
    · exact (first.covered id member).of_subset second.waiting
    · exact second.covered id member

theorem covers_push (walk : Walk) (done : List GlobalId) (slot : Slot) (id : GlobalId) :
    (walk.push slot id).Covers done id :=
  .inr List.mem_cons_self

theorem pending_subset_push : walk.pending ⊆ (walk.push slot id).pending :=
  List.subset_cons_self _ _

theorem named_push (named : walk.Named done) : (walk.push slot id).Named done :=
  fun entry member => (named entry member).of_subset pending_subset_push

/-- A name may be given to an object that waits next. -/
theorem named_giveName (named : walk.Named done) :
    ((walk.giveName slot id).push slot id).Named done := by
  intro entry member
  rcases List.mem_cons.mp member with rfl | older
  · exact covers_push _ _ _ _
  · exact (named entry older).of_subset (List.subset_cons_self _ _)

theorem covers_of_name? (named : walk.Named done) (found : walk.name? slot = some id) :
    walk.Covers done id := by
  obtain ⟨entry, entry_found, rfl⟩ := Option.map_eq_some_iff.mp found
  exact named entry (List.mem_of_find?_eq_some entry_found)

end Walks

section Values

variable {types : TypeTable} {heap : Heap} {owner : GlobalId} {done : List GlobalId}

/-- A captured reference waits, or is covered already. -/
theorem captureRef_goes {path : String} {slot : Slot} {walk after : Walk} {value : Captured}
    (named : walk.Named done)
    (captured : captureRef types heap owner path slot walk = .ok (value, after)) :
    Goes done walk after value.references := by
  obtain ⟨referent, -, captured⟩ := bind_eq_ok_iff.mp captured
  cases referent with
  | skipped =>
      cases captured
      simpa [Value.references] using Goes.refl named
  | entity id =>
      cases captured
      refine ⟨pending_subset_push, named_push named, fun target member => ?_⟩
      rw [Value.references, List.mem_singleton] at member
      rw [member]
      exact covers_push _ _ _ _
  | valueObject =>
      cases found : walk.name? slot with
      | some id =>
          simp only [found] at captured
          cases captured
          refine ⟨fun _ member => member, named, fun target member => ?_⟩
          rw [Value.references, List.mem_singleton] at member
          rw [member]
          exact covers_of_name? named found
      | none =>
          simp only [found] at captured
          cases captured
          refine ⟨List.subset_cons_self _ _, named_giveName named, fun target member => ?_⟩
          rw [Value.references, List.mem_singleton] at member
          rw [member]
          exact covers_push _ _ _ _

mutual

theorem captureValue_goes {type : Classified} {path : String} {walk after : Walk} (live : Live)
    {value : Captured} (named : walk.Named done)
    (captured : captureValue types heap owner type path live walk = .ok (value, after)) :
    Goes done walk after value.references := by
  cases live with
  | null | scalar =>
      rw [captureValue] at captured
      cases captured
      simpa [Value.references] using Goes.refl named
  | ref slot =>
      rw [captureValue] at captured
      exact captureRef_goes named captured
  | seq items =>
      rw [captureValue] at captured
      obtain ⟨⟨values, reached⟩, items_captured, captured⟩ := bind_eq_ok_iff.mp captured
      cases captured
      simpa [Value.references] using captureItems_goes items named items_captured
  | map entries =>
      rw [captureValue] at captured
      obtain ⟨⟨values, reached⟩, entries_captured, captured⟩ := bind_eq_ok_iff.mp captured
      cases captured
      simpa [Value.references] using captureEntries_goes entries named entries_captured

theorem captureItems_goes {type : Classified} {path : String} {index : Nat} {walk after : Walk}
    (items : List Live) {values : List Captured} (named : walk.Named done)
    (captured : captureItems types heap owner type path index items walk = .ok (values, after)) :
    Goes done walk after (Value.referencesOfItems values) := by
  cases items with
  | nil =>
      rw [captureItems] at captured
      cases captured
      simpa [Value.referencesOfItems] using Goes.refl named
  | cons item rest =>
      rw [captureItems] at captured
      obtain ⟨place, -, captured⟩ := bind_eq_ok_iff.mp captured
      obtain ⟨⟨value, between⟩, item_captured, captured⟩ := bind_eq_ok_iff.mp captured
      obtain ⟨⟨others, reached⟩, rest_captured, captured⟩ := bind_eq_ok_iff.mp captured
      cases captured
      have first := captureValue_goes item named item_captured
      rw [Value.referencesOfItems]
      exact first.trans (captureItems_goes rest first.named rest_captured)

theorem captureEntries_goes {type : Classified} {path : String} {index : Nat} {walk after : Walk}
    (entries : List (Live × Live)) {values : List (Captured × Captured)}
    (named : walk.Named done)
    (captured : captureEntries types heap owner type path index entries walk =
      .ok (values, after)) : Goes done walk after (Value.referencesOfEntries values) := by
  cases entries with
  | nil =>
      rw [captureEntries] at captured
      cases captured
      simpa [Value.referencesOfEntries] using Goes.refl named
  | cons entry rest =>
      obtain ⟨key, value⟩ := entry
      rw [captureEntries] at captured
      obtain ⟨⟨newKey, walk₁⟩, key_captured, captured⟩ := bind_eq_ok_iff.mp captured
      obtain ⟨⟨newValue, walk₂⟩, value_captured, captured⟩ := bind_eq_ok_iff.mp captured
      obtain ⟨⟨others, walk₃⟩, rest_captured, captured⟩ := bind_eq_ok_iff.mp captured
      cases captured
      have keys := captureValue_goes key named key_captured
      have values := captureValue_goes value keys.named value_captured
      rw [Value.referencesOfEntries]
      exact (keys.trans values).trans (captureEntries_goes rest values.named rest_captured)

end

/-- What the capture of properties preserves of a state. -/
structure Storing (types : TypeTable) (properties : List Property) (state : State) : Prop where
  /-- No property is stored twice. -/
  distinct : state.names.Nodup
  /-- What is stored are properties that are not ignored. -/
  declared : ∀ name ∈ state.names, ∃ property ∈ properties, property.name = name ∧
    ¬ (types.classify property.type).isIgnored

theorem Storing.insert {properties : List Property} {state : State}
    (storing : Storing types properties state) {property : Property}
    (member : property ∈ properties) (kept : ¬ (types.classify property.type).isIgnored)
    (value : Captured) : Storing types properties (state.insert property.name value) where
  distinct := State.nodup_names_insert storing.distinct _ _
  declared name stored := by
    rcases State.mem_names_insert stored with rfl | older
    · exact ⟨property, member, rfl, kept⟩
    · exact storing.declared name older

/-- Capturing properties stores declared ones and covers their references. -/
theorem captureProperties_goes {object : Instance} {declared properties : List Property}
    (among : properties ⊆ declared) {state final : State} {walk after : Walk}
    (storing : Storing types declared state) (named : walk.Named done)
    (covered : ∀ id ∈ state.references, walk.Covers done id)
    (captured : captureProperties types heap owner object properties state walk =
      .ok (final, after)) :
    Storing types declared final ∧ Goes done walk after final.references := by
  induction properties generalizing state walk with
  | nil =>
      rw [captureProperties] at captured
      cases captured
      exact ⟨storing, fun _ member => member, named, covered⟩
  | cons property rest induction =>
      have rest_among : rest ⊆ declared := fun _ member => among (List.mem_cons_of_mem _ member)
      rw [captureProperties] at captured
      simp only at captured
      split at captured
      next value kept set =>
        obtain ⟨⟨stored, between⟩, value_captured, captured⟩ := bind_eq_ok_iff.mp captured
        have first := captureValue_goes value named value_captured
        obtain ⟨formed, goes⟩ := induction rest_among
          (storing.insert (among List.mem_cons_self) (by simpa using kept) stored) first.named
          (fun id member => by
            rcases State.mem_references_insert member with older | new
            · exact (covered id older).of_subset first.waiting
            · exact first.covered id new) captured
        exact ⟨formed, fun _ member => goes.waiting (first.waiting member), goes.named,
          goes.covered⟩
      next => exact induction rest_among storing named covered captured

end Values

section Nodes

variable {types : TypeTable} {heap : Heap} {done : List GlobalId}

theorem managedType_eq_ok_iff {className : String} {managed : ManagedType} :
    managedType types className = .ok managed ↔ types.managedOf? className = some managed := by
  unfold managedType TypeTable.managedType
  cases types.managedOf? className with
  | some other => simp
  | none =>
      simp only [reduceCtorEq, iff_false]
      split_ifs <;> exact fun failed => nomatch failed

/-- A captured node has the id it was asked for, and its references are covered. -/
theorem captureNode_goes {slot : Slot} {id : GlobalId} {walk after : Walk} {node : Node}
    (named : walk.Named done)
    (captured : captureNode types heap slot id walk = .ok (node, after)) :
    node.id = id ∧ node.Formed types ∧ Goes done walk after node.state.references := by
  obtain ⟨object, -, captured⟩ := bind_eq_ok_iff.mp captured
  obtain ⟨managed, found, captured⟩ := bind_eq_ok_iff.mp captured
  obtain ⟨⟨state, reached⟩, state_captured, captured⟩ := bind_eq_ok_iff.mp captured
  cases captured
  have registered : managed ∈ types.managed :=
    List.mem_of_find?_eq_some (managedType_eq_ok_iff.mp found)
  have start : Storing types managed.properties .empty :=
    ⟨List.nodup_nil, fun _ member => (nomatch member)⟩
  obtain ⟨storing, goes⟩ := captureProperties_goes (fun _ member => member) start named
    (fun _ member => (nomatch member)) state_captured
  exact ⟨rfl, ⟨storing.distinct, managed, registered, rfl, storing.declared⟩, goes⟩

/-- What every step of draining preserves. -/
structure Draining (types : TypeTable) (walk : Walk) (graph : Graph) : Prop where
  /-- Named objects are covered. -/
  named : walk.Named graph.ids
  /-- Nodes are as captures make them. -/
  formed : ∀ node ∈ graph.nodes.rows, node.Formed types
  /-- References are covered. -/
  covered : ∀ node ∈ graph.nodes.rows, ∀ id ∈ node.state.references, walk.Covers graph.ids id

theorem mem_ids_insert_iff {graph : Graph} {node : Node} {id : GlobalId} :
    id ∈ (graph.insert node).ids ↔ id = node.id ∨ id ∈ graph.ids := by
  rw [Graph.mem_ids_iff, Graph.find?_insert, Graph.mem_ids_iff]
  split
  next same => simp [same]
  next other => simp [other]

/-- What waits is a node already, comes next, or waits behind that. -/
theorem Walk.waits_cases {walk : Walk} {graph : Graph} {next : Slot × GlobalId}
    {rest : List (Slot × GlobalId)}
    (comes : walk.pending.dropWhile (fun entry => graph.contains entry.2) = next :: rest) :
    next ∈ walk.pending ∧ rest ⊆ walk.pending ∧ next.2 ∉ graph.ids ∧
      ∀ entry ∈ walk.pending, entry.2 ∈ graph.ids ∨ entry = next ∨ entry ∈ rest := by
  have later : next :: rest ⊆ walk.pending := comes ▸ (List.dropWhile_suffix _).subset
  refine ⟨later List.mem_cons_self, fun _ member => later (List.mem_cons_of_mem _ member), ?_, ?_⟩
  · have fresh : graph.contains next.2 = false := by
      simpa only [comes, List.head_cons] using List.head_dropWhile_not
        (fun entry => graph.contains entry.2) (l := walk.pending) (by simp [comes])
    rw [Graph.mem_ids_iff, ← Graph.contains_eq, fresh]
    exact Bool.false_ne_true
  · intro entry waits
    rw [← List.takeWhile_append_dropWhile (p := fun entry => graph.contains entry.2)
      (l := walk.pending), comes, List.mem_append, List.mem_cons] at waits
    refine waits.imp_left fun skipped => ?_
    have contained := List.mem_takeWhile_imp skipped
    rwa [Graph.contains_eq, ← Graph.mem_ids_iff] at contained

/-- Capturing the next object that waits keeps the invariant. -/
theorem Draining.step {walk after : Walk} {graph : Graph} {slot : Slot} {id : GlobalId}
    {rest : List (Slot × GlobalId)} {node : Node} (draining : Draining types walk graph)
    (next : walk.pending.dropWhile (fun entry => graph.contains entry.2) = (slot, id) :: rest)
    (captured : captureNode types heap slot id { walk with pending := rest } = .ok (node, after)) :
    Draining types after (graph.insert node) := by
  have entering {target : GlobalId} (covers : walk.Covers graph.ids target) :
      ({ walk with pending := rest } : Walk).Covers (id :: graph.ids) target := by
    rcases covers with known | waits
    · exact .inl (List.mem_cons_of_mem _ known)
    · obtain ⟨entry, entry_mem, rfl⟩ := List.mem_map.mp waits
      obtain ⟨-, -, -, cases⟩ := Walk.waits_cases next
      rcases cases entry entry_mem with known | rfl | later
      · exact .inl (List.mem_cons_of_mem _ known)
      · exact .inl List.mem_cons_self
      · exact .inr (List.mem_map_of_mem later)
  obtain ⟨rfl, formed, goes⟩ := captureNode_goes
    (fun entry member => entering (draining.named entry member)) captured
  have leaving {target : GlobalId} (covers : after.Covers (node.id :: graph.ids) target) :
      after.Covers (graph.insert node).ids target :=
    covers.imp_left fun member => mem_ids_insert_iff.mpr (List.mem_cons.mp member)
  refine ⟨fun entry member => leaving (goes.named entry member), fun other member => ?_,
    fun other member target refers => ?_⟩
  · rcases Table.mem_put_iff.mp member with rfl | ⟨older, -⟩
    · exact formed
    · exact draining.formed other older
  · rcases Table.mem_put_iff.mp member with rfl | ⟨older, -⟩
    · exact leaving (goes.covered target refers)
    · exact leaving ((entering (draining.covered other older target refers)).of_subset goes.waiting)

/-- When nothing waits that is not a node, the graph is closed. -/
theorem Draining.finish {walk : Walk} {graph : Graph} (draining : Draining types walk graph)
    (finished : walk.pending.dropWhile (fun entry => graph.contains entry.2) = []) :
    graph.Closed ∧ ∀ node ∈ graph.nodes.rows, node.Formed types := by
  refine ⟨fun node member id refers => ?_, draining.formed⟩
  rcases draining.covered node member id refers with known | waits
  · exact known
  · obtain ⟨entry, entry_mem, rfl⟩ := List.mem_map.mp waits
    have contained := List.dropWhile_eq_nil_iff.mp finished entry entry_mem
    rwa [Graph.contains_eq, ← Graph.mem_ids_iff] at contained

/-- Draining ends when nothing waits. -/
theorem drain_spec {room : Nat} {walk : Walk} {graph final : Graph}
    (draining : Draining types walk graph)
    (drained : drain types heap room walk graph = .ok final) :
    final.Closed ∧ ∀ node ∈ final.nodes.rows, node.Formed types := by
  induction room generalizing walk graph with
  | zero =>
      rw [drain.eq_def] at drained
      simp only at drained
      split at drained
      next finished =>
        cases drained
        exact draining.finish finished
      next => cases drained
  | succ room induction =>
      rw [drain.eq_def] at drained
      simp only at drained
      split at drained
      next finished =>
        cases drained
        exact draining.finish finished
      next slot id rest next =>
        obtain ⟨⟨node, reached⟩, captured, drained⟩ := bind_eq_ok_iff.mp drained
        exact induction (draining.step next captured) drained

theorem enter_named {roots : List Slot} {ids : List GlobalId} {walk after : Walk}
    (named : walk.Named done) (entered : enter types heap roots walk = .ok (ids, after)) :
    after.Named done := by
  induction roots generalizing walk ids with
  | nil =>
      cases entered
      exact named
  | cons slot rest induction =>
      obtain ⟨id, -, entered⟩ := bind_eq_ok_iff.mp entered
      obtain ⟨⟨others, reached⟩, rest_entered, entered⟩ := bind_eq_ok_iff.mp entered
      cases entered
      refine induction ?_ rest_entered
      split
      · exact named_giveName named
      · exact named_push named

/-- Captured graphs are closed, and their nodes have properties of their managed types. -/
theorem capture_spec {roots : List Slot} {graph : Graph}
    (captured : capture types heap roots = .ok graph) :
    graph.Closed ∧ ∀ node ∈ graph.nodes.rows, node.Formed types := by
  obtain ⟨⟨ids, walk⟩, entered, drained⟩ := bind_eq_ok_iff.mp captured
  have start : Walk.empty.Named [] := fun _ member => (nomatch member)
  have draining : Draining types walk (.withRoots ids) :=
    ⟨enter_named start entered, fun _ member => (nomatch member), fun _ member => (nomatch member)⟩
  exact drain_spec draining drained

end Nodes

end Capture
end AuditTrail
