import AuditTrail.Proofs.Shadow.Copies

/-!
# Capturing copies

Capturing a copy goes in step with the capture that it was made from: at every point the copies of
the same objects wait and have the same names.  So it ends with the same graph.
-/

namespace AuditTrail.Shadow

open Schema Capture

/-- The slot that the copy of a node stands at. -/
def place (link : GlobalId → Option Slot) (id : GlobalId) : Slot := (link id).getD 0

/-- A walk among copies. -/
def image (link : GlobalId → Option Slot) (walk : Walk) : Walk where
  pending := walk.pending.map fun entry => (place link entry.2, entry.2)
  names := walk.names.map fun entry => (place link entry.2, entry.2)

section Steps

variable {types : TypeTable} {heap copy : Heap} {names : Walk} {graph : Graph}
  {link : GlobalId → Option Slot} {slot twin : Slot} {id owner : GlobalId} {walk after : Walk}
  {object twin_object : Instance} {managed : ManagedType} {path : String} {value : Captured}

theorem place_of_linked (linked : link id = some twin) : place link id = twin := by
  rw [place, linked, Option.getD_some]

/-- An object has been named so far exactly if its copy has. -/
theorem Copied.name?_image (copied : Copied types heap copy names graph link)
    (earlier : walk.names <:+ names.names) (slot_named : (slot, id) ∈ names.names)
    (linked : link id = some twin) : (image link walk).name? twin = walk.name? slot := by
  have same (entry : Slot × GlobalId) (member : entry ∈ walk.names) :
      (place link entry.2 == twin) = (entry.1 == slot) := by
    have named := earlier.subset member
    obtain ⟨other, other_linked⟩ := copied.linked (copied.named entry named)
    rw [place_of_linked other_linked, Bool.eq_iff_iff, beq_iff_eq, beq_iff_eq]
    exact (Relator.rel_eq copied.biUnique_twins ⟨entry.2, named, other_linked⟩
      ⟨id, slot_named, linked⟩).symm
  rw [Walk.name?, Walk.name?, image, List.find?_map, Option.map_map]
  exact congrArg (Option.map Prod.snd) (List.find?_congr same)

/-- What is not captured is captured as null, and nothing comes to wait. -/
theorem captureRef_of_skipped (found : referentAt types heap slot = .ok .skipped)
    (captured : captureRef types heap owner path slot walk = .ok (value, after)) :
    value = .null ∧ after = walk := by
  rw [captureRef, found] at captured
  cases captured
  exact ⟨rfl, rfl⟩

/-- Capturing a reference among copies goes in step. -/
theorem Copied.captureRef_image (copied : Copied types heap copy names graph link)
    (met : Met types heap names graph slot) (seen : view types heap names link slot = some twin)
    (captured : captureRef types heap owner path slot walk = .ok (value, after))
    (earlier : after.names <:+ names.names) :
    captureRef types copy owner path twin (image link walk) = .ok (value, image link after) := by
  cases copied.mirrored met with
  | skipped found =>
      rw [(copied.view_eq_none_iff met).mpr found] at seen
      cases seen
  | entity found linked twin_found =>
      rw [view_of_entity found linked] at seen
      cases seen
      rw [captureRef, found] at captured
      cases captured
      rw [captureRef, twin_found, ← place_of_linked linked]
      rfl
  | @valueObject id _ _ _ _ found named linked twin_found =>
      rw [copied.view_of_valueObject found named linked] at seen
      cases seen
      rw [captureRef, found] at captured
      rw [captureRef, twin_found]
      simp only [bind, Except.bind] at captured ⊢
      cases known : walk.name? slot with
      | some known_id =>
          simp only [known] at captured
          cases captured
          rw [copied.name?_image earlier named linked, known]
      | none =>
          simp only [known] at captured
          cases captured
          have walk_earlier : walk.names <:+ names.names := (List.suffix_cons _ _).trans earlier
          have child_eq : owner.child path = id := congrArg Prod.snd
            (List.inj_on_of_nodup_map copied.proper.once (earlier.subset List.mem_cons_self)
              named rfl)
          rw [copied.name?_image walk_earlier named linked, known]
          simp only [child_eq, ← place_of_linked linked]
          rfl

/-- Set elements are named alike: by the same content, if they are captured at all. -/
def Alike (types : TypeTable) (heap copy : Heap) (names : Walk) (link : GlobalId → Option Slot)
    (slots : List Slot) : Prop :=
  ∀ slot ∈ slots, ∀ twin, view types heap names link slot = some twin →
    contentName types heap (.ref slot) = contentName types copy (.ref twin)

/-- Only references are told apart by content. -/
theorem itemPath_of_not_isRef {type : Classified} {index : Nat} {item : Live}
    (plain : item.isRef = false) :
    itemPath types heap type path index item = .ok (path ++ "/" ++ toString index) := by
  rw [itemPath, plain, Bool.and_false]
  exact if_neg Bool.false_ne_true

/-- The path of an element is that of its copy, unless the element is not captured. -/
theorem itemPath_relink {type : Classified} {index : Nat} {item : Live}
    (seen : ∀ slot, item = .ref slot → ∃ twin, view types heap names link slot = some twin)
    (alike : Alike types heap copy names link (if type.isSet then item.target?.toList else [])) :
    itemPath types copy type path index (item.relink (view types heap names link)) =
      itemPath types heap type path index item := by
  cases item with
  | ref slot =>
      obtain ⟨twin, slot_seen⟩ := seen slot rfl
      have relinked : (Value.ref slot : Live).relink (view types heap names link) = .ref twin := by
        rw [Value.relink, slot_seen]
        rfl
      rw [relinked, itemPath, itemPath]
      by_cases set : type.isSet
      · rw [if_pos set] at alike
        rw [alike slot (List.mem_singleton_self slot) twin slot_seen]
        rfl
      · have plain : type.isSet = false := Bool.eq_false_iff.mpr set
        rw [plain]
        rfl
  | null | scalar | seq | map =>
      rw [Value.relink, itemPath_of_not_isRef rfl, itemPath_of_not_isRef rfl]

/-- An element is captured among copies as it was captured, though maybe at another path: an
element that is not captured is a reference, but its copy is null and stands at its position. -/
theorem captureItem_image {type : Classified} {index : Nat} {item : Live} {place : String}
    (alike : Alike types heap copy names link (if type.isSet then item.target?.toList else []))
    (placed : itemPath types heap type path index item = .ok place)
    (goes : captureValue types copy owner type.item place
      (item.relink (view types heap names link)) (image link walk) =
        .ok (value, image link after)) :
    ∃ other, itemPath types copy type path index (item.relink (view types heap names link)) =
        .ok other ∧
      captureValue types copy owner type.item other (item.relink (view types heap names link))
        (image link walk) = .ok (value, image link after) := by
  by_cases unseen : ∃ slot, item = .ref slot ∧ view types heap names link slot = none
  · obtain ⟨slot, rfl, unseen⟩ := unseen
    have relinked : (Value.ref slot : Live).relink (view types heap names link) = .null := by
      rw [Value.relink, unseen]
      rfl
    rw [relinked, captureValue] at goes
    rw [relinked]
    exact ⟨_, itemPath_of_not_isRef rfl, by rw [captureValue, goes]⟩
  · refine ⟨place, ?_, goes⟩
    rw [itemPath_relink (by simpa [Option.ne_none_iff_exists'] using unseen) alike, placed]

mutual

/-- Capturing a value among copies goes in step. -/
theorem Copied.captureValue_image (copied : Copied types heap copy names graph link)
    {type : Classified} {path : String} {walk after : Walk} (live : Live) {value : Captured}
    (proper : walk.Proper) (met : ∀ target ∈ live.references, Met types heap names graph target)
    (alike : Alike types heap copy names link (setElements type live))
    (captured : captureValue types heap owner type path live walk = .ok (value, after))
    (earlier : after.names <:+ names.names) :
    captureValue types copy owner type path (live.relink (view types heap names link))
      (image link walk) = .ok (value, image link after) := by
  cases live with
  | null | scalar =>
      rw [captureValue] at captured
      cases captured
      rw [Value.relink, captureValue]
  | ref slot =>
      rw [captureValue] at captured
      have slot_met := met slot (by rw [Value.references]; exact List.mem_singleton_self slot)
      cases seen : view types heap names link slot with
      | none =>
          obtain ⟨rfl, rfl⟩ :=
            captureRef_of_skipped ((copied.view_eq_none_iff slot_met).mp seen) captured
          rw [Value.relink, seen, Option.map_none, Option.getD_none, captureValue]
      | some twin =>
          rw [Value.relink, seen, Option.map_some, Option.getD_some, captureValue]
          exact copied.captureRef_image slot_met seen captured earlier
  | seq items =>
      rw [captureValue] at captured
      obtain ⟨⟨values, reached⟩, items_captured, captured⟩ := bind_eq_ok_iff.mp captured
      cases captured
      rw [Value.references] at met
      rw [setElements] at alike
      rw [Value.relink, captureValue,
        copied.captureItems_image items proper met alike items_captured earlier]
      rfl
  | map entries =>
      rw [captureValue] at captured
      obtain ⟨⟨values, reached⟩, entries_captured, captured⟩ := bind_eq_ok_iff.mp captured
      cases captured
      rw [Value.references] at met
      rw [setElements] at alike
      rw [Value.relink, captureValue,
        copied.captureEntries_image entries proper met alike entries_captured earlier]
      rfl

theorem Copied.captureItems_image (copied : Copied types heap copy names graph link)
    {type : Classified} {path : String} {index : Nat} {walk after : Walk} (items : List Live)
    {values : List Captured} (proper : walk.Proper)
    (met : ∀ target ∈ Value.referencesOfItems items, Met types heap names graph target)
    (alike : Alike types heap copy names link (setElementsOfItems type items))
    (captured : captureItems types heap owner type path index items walk = .ok (values, after))
    (earlier : after.names <:+ names.names) :
    captureItems types copy owner type path index
      (Value.relinkItems (view types heap names link) items) (image link walk) =
        .ok (values, image link after) := by
  cases items with
  | nil =>
      rw [captureItems] at captured
      cases captured
      rw [Value.relinkItems, captureItems]
  | cons item rest =>
      rw [captureItems] at captured
      obtain ⟨place, item_placed, captured⟩ := bind_eq_ok_iff.mp captured
      obtain ⟨⟨value, between⟩, item_captured, captured⟩ := bind_eq_ok_iff.mp captured
      obtain ⟨⟨others, reached⟩, rest_captured, captured⟩ := bind_eq_ok_iff.mp captured
      cases captured
      rw [Value.referencesOfItems, List.forall_mem_append] at met
      simp only [Alike, setElementsOfItems, List.forall_mem_append] at alike
      obtain ⟨first, -⟩ := captureValue_settles item proper item_captured
      obtain ⟨second, -⟩ := captureItems_settles rest first.proper rest_captured
      have item_image := copied.captureValue_image item proper met.1 alike.1.2 item_captured
        (second.names.trans earlier)
      have rest_image :=
        copied.captureItems_image rest first.proper met.2 alike.2 rest_captured earlier
      rw [Value.relinkItems, captureItems]
      obtain ⟨other, placed, goes⟩ := captureItem_image alike.1.1 item_placed item_image
      simp only [bind, Except.bind, placed, goes, rest_image]

theorem Copied.captureEntries_image (copied : Copied types heap copy names graph link)
    {type : Classified} {path : String} {index : Nat} {walk after : Walk}
    (entries : List (Live × Live)) {values : List (Captured × Captured)} (proper : walk.Proper)
    (met : ∀ target ∈ Value.referencesOfEntries entries, Met types heap names graph target)
    (alike : Alike types heap copy names link (setElementsOfEntries type entries))
    (captured : captureEntries types heap owner type path index entries walk =
      .ok (values, after)) (earlier : after.names <:+ names.names) :
    captureEntries types copy owner type path index
      (Value.relinkEntries (view types heap names link) entries) (image link walk) =
        .ok (values, image link after) := by
  cases entries with
  | nil =>
      rw [captureEntries] at captured
      cases captured
      rw [Value.relinkEntries, captureEntries]
  | cons entry rest =>
      obtain ⟨key, value⟩ := entry
      rw [captureEntries] at captured
      obtain ⟨⟨newKey, walk₁⟩, key_captured, captured⟩ := bind_eq_ok_iff.mp captured
      obtain ⟨⟨newValue, walk₂⟩, value_captured, captured⟩ := bind_eq_ok_iff.mp captured
      obtain ⟨⟨others, walk₃⟩, rest_captured, captured⟩ := bind_eq_ok_iff.mp captured
      cases captured
      simp only [Value.referencesOfEntries, List.forall_mem_append] at met
      simp only [Alike, setElementsOfEntries, List.forall_mem_append] at alike
      obtain ⟨keys, -⟩ := captureValue_settles key proper key_captured
      obtain ⟨values, -⟩ := captureValue_settles value keys.proper value_captured
      obtain ⟨others, -⟩ := captureEntries_settles rest values.proper rest_captured
      have key_image := copied.captureValue_image key proper met.1.1 alike.1.1 key_captured
        ((values.names.trans others.names).trans earlier)
      have value_image := copied.captureValue_image value keys.proper met.1.2 alike.1.2
        value_captured (others.names.trans earlier)
      have rest_image :=
        copied.captureEntries_image rest values.proper met.2 alike.2 rest_captured earlier
      rw [Value.relinkEntries, captureEntries]
      simp only [bind, Except.bind, key_image, value_image, rest_image]

end

/-- What a kept property holds is captured from the copy as it was captured, unless it is null and
the copy lacks the property. -/
theorem Copied.captureKept_image (copied : Copied types heap copy names graph link)
    (copies : Copies types (view types heap names link) object twin_object managed)
    {type : Classified} {name : String} {live : Live} (proper : walk.Proper)
    (kept_entry : (name, live) ∈ kept types object managed.properties)
    (met : ∀ target ∈ live.references, Met types heap names graph target)
    (alike : Alike types heap copy names link (setElements type live))
    (captured : captureValue types heap owner type path live walk = .ok (value, after))
    (earlier : after.names <:+ names.names) :
    (twin_object.get? name = none ∧ value = .null ∧ image link walk = image link after) ∨
      ∃ twin_live, twin_object.get? name = some twin_live ∧
        captureValue types copy owner type path twin_live (image link walk) =
          .ok (value, image link after) := by
  have value_image := copied.captureValue_image live proper met alike captured earlier
  have twin_set := copies.set _ kept_entry
  by_cases null : (live.relink (view types heap names link)).isNull
  · rw [if_pos null] at twin_set
    rw [Value.eq_null_of_isNull null, captureValue] at value_image
    obtain ⟨value_eq, same_image⟩ := Prod.mk.inj (Except.ok.inj value_image)
    exact .inl ⟨twin_set, value_eq.symm, same_image⟩
  · rw [if_neg null] at twin_set
    exact .inr ⟨_, twin_set, value_image⟩

/-- Capturing the properties of a copy goes in step. -/
theorem Copied.captureProperties_image (copied : Copied types heap copy names graph link)
    (copies : Copies types (view types heap names link) object twin_object managed)
    (met : ∀ entry ∈ kept types object managed.properties, ∀ target ∈ entry.2.references,
      Met types heap names graph target)
    (alike : ∀ property ∈ managed.properties, ¬ (types.classify property.type).isIgnored →
      ∀ value, object.get? property.name = some value →
        Alike types heap copy names link (setElements (types.classify property.type) value))
    {properties : List Property} (among : properties ⊆ managed.properties) {state final : State}
    {walk : Walk} (proper : walk.Proper)
    (stored : ∀ name ∈ state.names, (twin_object.get? name).isSome)
    (captured : captureProperties types heap owner object properties state walk =
      .ok (final, after)) (earlier : after.names <:+ names.names) :
    captureProperties types copy owner twin_object properties state (image link walk) =
      .ok (final, image link after) := by
  induction properties generalizing state walk with
  | nil =>
      rw [captureProperties] at captured
      cases captured
      rw [captureProperties]
  | cons property rest induction =>
      have declared : property ∈ managed.properties := among List.mem_cons_self
      have rest_among : rest ⊆ managed.properties :=
        fun _ member => among (List.mem_cons_of_mem _ member)
      rw [captureProperties] at captured ⊢
      simp only at captured ⊢
      cases heeded : (types.classify property.type).isIgnored with
      | true =>
          simp only [heeded] at captured
          exact induction rest_among proper stored captured
      | false =>
          cases set : object.get? property.name with
          | none =>
              simp only [heeded, set] at captured
              rw [copies.unset _ set]
              exact induction rest_among proper stored captured
          | some value =>
              simp only [heeded, set] at captured
              obtain ⟨⟨kept_value, between⟩, value_captured, captured⟩ := bind_eq_ok_iff.mp captured
              have heeded' : ¬ (types.classify property.type).isIgnored :=
                Bool.eq_false_iff.mp heeded
              have kept_entry : (property.name, value) ∈ kept types object managed.properties :=
                mem_kept_iff.mpr ⟨property, declared, heeded', rfl, set⟩
              obtain ⟨first, -⟩ := captureValue_settles value proper value_captured
              obtain ⟨second, -⟩ := captureProperties_settles first.proper captured
              rcases copied.captureKept_image copies proper kept_entry (met _ kept_entry)
                (alike property declared heeded' value set) value_captured
                (second.names.trans earlier) with
                ⟨twin_unset, rfl, same_image⟩ | ⟨twin_value, twin_set, twin_captured⟩
              · -- The copy lacks the property, and setting it to null here changes nothing.
                have absent : property.name ∉ state.names := by
                  intro member
                  have present := stored _ member
                  rw [twin_unset] at present
                  cases present
                rw [State.insert_null_of_absent absent] at captured
                rw [twin_unset, same_image]
                exact induction rest_among first.proper stored captured
              · rw [twin_set]
                simp only [bind, Except.bind, twin_captured]
                refine induction rest_among first.proper (fun name member => ?_) captured
                rcases State.mem_names_insert member with rfl | older
                · rw [twin_set]
                  rfl
                · exact stored name older

/-- Capturing a copy as a node goes in step. -/
theorem Copied.captureNode_image (copied : Copied types heap copy names graph link) {root : Slot}
    (whole : WrittenWhole types heap root) {node : Node} (proper : walk.Proper)
    (reached : Reached types heap root slot)
    (captured : captureNode types heap slot id walk = .ok (node, after))
    (earlier : after.names <:+ names.names) (found : graph.find? id = some node) :
    captureNode types copy (place link id) id (image link walk) = .ok (node, image link after) := by
  obtain ⟨object, managed, stands, -, depicts, -⟩ := captureNode_depicts proper captured
  have finally_depicts := depicts.of_suffix earlier copied.proper
  obtain ⟨twin, twin_object, linked, twin_stands, copies⟩ := copied.copies found finally_depicts
  obtain ⟨_, other_stands, captured⟩ := bind_eq_ok_iff.mp captured
  obtain rfl := Option.some.inj (stands.symm.trans (instanceAt_eq_ok_iff.mp other_stands))
  obtain ⟨_, other_typed, captured⟩ := bind_eq_ok_iff.mp captured
  obtain rfl := Option.some.inj (depicts.typed.symm.trans (managedType_eq_ok_iff.mp other_typed))
  obtain ⟨⟨state, reached_walk⟩, state_captured, captured⟩ := bind_eq_ok_iff.mp captured
  cases captured
  have met : ∀ entry ∈ kept types object managed.properties, ∀ target ∈ entry.2.references,
      Met types heap names graph target :=
    fun entry kept_entry target refers => copied.met found finally_depicts kept_entry refers
  have properties_image := copied.captureProperties_image copies met
    (fun property declared heeded value set element element_mem element_twin seen => by
      have kept_entry : (property.name, value) ∈ kept types object managed.properties :=
        mem_kept_iff.mpr ⟨property, declared, heeded, rfl, set⟩
      exact copied.contentName_eq whole
        (.element reached stands depicts.typed declared heeded set element_mem)
        (met _ kept_entry element (setElements_subset _ value element_mem)) seen)
    (List.Subset.refl _) proper (fun _ member => absurd member List.not_mem_nil) state_captured
    earlier
  rw [place_of_linked linked, captureNode, instanceAt_eq_ok_iff.mpr twin_stands]
  simp only [bind, Except.bind, managedType_eq_ok_iff.mpr copies.typed, properties_image]

theorem dropWhile_image {before : Graph} :
    (image link walk).pending.dropWhile (fun entry => before.contains entry.2) =
      (walk.pending.dropWhile fun entry => before.contains entry.2).map
        fun entry => (place link entry.2, entry.2) := by
  rw [image, List.dropWhile_map]
  rfl

/-- What waits once an object is captured is reached, if what waited before is. -/
theorem reached_waiting {root : Slot} (reached : Reached types heap root slot)
    (stands : heap.get? slot = some object)
    (typed : types.managedOf? object.className = some managed)
    (settling : Settling types heap walk after ((kept types object managed.properties).flatMap
      fun entry => entry.2.references))
    (before : ∀ entry ∈ walk.pending, Reached types heap root entry.1) :
    ∀ entry ∈ after.pending, Reached types heap root entry.1 := by
  intro entry member
  rcases settling.waiting entry member with older | ⟨refers, -⟩
  · exact before entry older
  · obtain ⟨kept_entry, kept_mem, refers⟩ := List.mem_flatMap.mp refers
    exact .step reached stands typed kept_mem refers

/-- Draining goes in step among copies, given room for the nodes that are to come. -/
theorem Copied.drain_image (copied : Copied types heap copy names graph link) {root : Slot}
    (whole : WrittenWhole types heap root) {room room' : Nat} {walk : Walk} {before : Graph}
    {left : List GlobalId} (proper : walk.Proper)
    (named : ∀ entry ∈ walk.pending, walk.nameOf types heap entry.1 = some entry.2)
    (reached : ∀ entry ∈ walk.pending, Reached types heap root entry.1)
    (left_over : ∀ id ∈ graph.ids, id ∈ before.ids ∨ id ∈ left) (enough : left.length ≤ room')
    (drained : drainWalk types heap room walk before = .ok (graph, names)) :
    drain types copy room' (image link walk) before = .ok graph := by
  induction room generalizing room' walk before left with
  | zero =>
      obtain ⟨finished, rfl, rfl⟩ | ⟨_, _, _, _, _, _, -, less_eq, -⟩ := drainWalk_cases drained
      · exact drain_of_finished (by rw [dropWhile_image, finished, List.map_nil])
      · cases less_eq
  | succ room induction =>
      obtain ⟨finished, rfl, rfl⟩ | ⟨slot, id, rest, _, node, after, next, ⟨⟩, captured,
        drained⟩ := drainWalk_cases drained
      · exact drain_of_finished (by rw [dropWhile_image, finished, List.map_nil])
      obtain ⟨waits, rest_waits, fresh, -⟩ := Walk.waits_cases next
      have rest_proper : ({ walk with pending := rest } : Walk).Proper :=
        ⟨proper.once, proper.owned⟩
      obtain ⟨object, managed, stands, rfl, depicts, settling⟩ :=
        captureNode_depicts rest_proper captured
      have after_named := settling.named_waiting fun entry member => named entry (rest_waits member)
      have after_reached := reached_waiting (reached _ waits) stands depicts.typed settling
        fun entry member => reached entry (rest_waits member)
      have traced := drainWalk_traced settling.proper after_named drained
      have found : graph.find? node.id = some node :=
        traced.persists _ _ (by rw [Graph.find?_insert, if_pos rfl])
      have to_come : node.id ∈ left :=
        (left_over _ (Graph.mem_ids_iff.mpr (Option.isSome_of_eq_some found))).resolve_left fresh
      have node_image := copied.captureNode_image whole rest_proper (reached _ waits) captured
        traced.names found
      have next_image : (image link walk).pending.dropWhile
          (fun entry => before.contains entry.2) = (place link node.id, node.id) ::
            (image link { walk with pending := rest }).pending := by
        rw [dropWhile_image, next]
        rfl
      have remaining (other : GlobalId) (member : other ∈ graph.ids) :
          other ∈ (before.insert node).ids ∨ other ∈ left.erase node.id := by
        rw [mem_ids_insert_iff, or_assoc]
        by_cases here : other = node.id
        · exact .inl here
        · exact .inr ((left_over other member).imp_right (List.mem_erase_of_ne here).mpr)
      have some_left := List.length_pos_of_mem to_come
      obtain ⟨room', rfl⟩ : ∃ less, room' = less + 1 := ⟨room' - 1, by omega⟩
      have fewer : (left.erase node.id).length ≤ room' := by
        rw [List.length_erase_of_mem to_come]
        omega
      rw [drain_of_next next_image node_image]
      exact induction settling.proper after_named after_reached remaining fewer drained

end Steps

section Recapture

variable {types : TypeTable} {heap copy : Heap} {root : Slot} {id : GlobalId} {graph : Graph}
  {names : Walk} {definitions : List Definition} {live? : GlobalId → Option Snapshot}
  {listing : List GlobalId} {link : GlobalId → Option Slot}

/-- An entity's id as a root is its id as a target of references. -/
theorem rootId_eq_ok_iff (accepted : TypeTable.ofDefinitions definitions = .ok types)
    (entity : ¬ id.isValueObject) :
    rootId types heap root = .ok id ↔ referentAt types heap root = .ok (.entity id) := by
  rw [rootId_eq_ok_iff_referentAt accepted]
  refine or_iff_left ?_
  rintro ⟨_, _, -, rfl⟩
  exact entity rfl

/-- A heap rebuilt from a captured graph holds a copy of every node. -/
theorem Rebuilt.copied (accepted : TypeTable.ofDefinitions definitions = .ok types)
    (traced : Traced types heap ⟨[(root, id)], []⟩ names (.withRoots [id]) graph)
    (closed : graph.Closed) (distinct : (names.names.map Prod.snd).Nodup)
    (live : ∀ other node, graph.find? other = some node →
      ∃ snapshot, live? other = some snapshot ∧ snapshot.node = node)
    (rebuilt : Rebuilt types .deep live? id listing link copy) :
    Copied types heap copy names graph link ∧ graph.ids ⊆ listing := by
  have root_mem : id ∈ graph.ids := traced.captured _ (List.mem_singleton_self _)
  have listed : graph.ids ⊆ listing := by
    intro other member
    refine (rebuilt.mem_iff other).mpr ((linked_iff_reaches closed root_mem ?_).mpr ?_)
    · intro other node _ found
      obtain ⟨snapshot, other_live, rfl⟩ := live other node found
      exact ⟨snapshot, other_live, fun _ => Iff.rfl⟩
    · rcases traced.reached other member with known | ⟨entry, waits, reached⟩
      · cases known
      · rwa [List.mem_singleton.mp waits] at reached
  refine ⟨?_, listed⟩
  exact {
    accepted := ⟨definitions, accepted⟩
    proper := traced.proper
    distinct
    named := fun entry member => (traced.named entry member).resolve_left List.not_mem_nil
    closed
    shown := fun other node found => (traced.shown other node found).resolve_left (by
      simp [Graph.withRoots, Graph.find?])
    injective := fun one other slot linked other_linked => Option.some.inj
      (((rebuilt.link_iff one slot).mp linked).symm.trans
        ((rebuilt.link_iff other slot).mp other_linked))
    stands := fun other node found => by
      obtain ⟨slot, slot_listed⟩ := List.mem_iff_getElem?.mp
        (listed (Graph.mem_ids_iff.mpr (Option.isSome_of_eq_some found)))
      obtain ⟨snapshot, other_live, same⟩ := live other node found
      obtain ⟨_, same_live, stands⟩ := rebuilt.get?_eq slot other slot_listed
      obtain rfl := Option.some.inj (other_live.symm.trans same_live)
      exact ⟨slot, snapshot, (rebuilt.link_iff other slot).mpr slot_listed, same, stands⟩ }

/-- A heap rebuilt from the graph of an entity is captured as that graph, if no two value objects
have the same name and all that contents say is kept. -/
theorem Rebuilt.recapture (accepted : TypeTable.ofDefinitions definitions = .ok types)
    (identified : rootId types heap root = .ok id) (entity : ¬ id.isValueObject)
    (captured : captureWalk types heap [root] = .ok (graph, names))
    (distinct : (names.names.map Prod.snd).Nodup) (whole : WrittenWhole types heap root)
    (live : ∀ other node, graph.find? other = some node →
      ∃ snapshot, live? other = some snapshot ∧ snapshot.node = node)
    (rebuilt : Rebuilt types .deep live? id listing link copy) :
    capture types copy [0] = .ok graph := by
  have found := (rootId_eq_ok_iff accepted entity).mp identified
  obtain ⟨drained, traced⟩ := captureWalk_traced found identified captured
  have captured_graph : capture types heap [root] = .ok graph := by
    rw [capture_eq, captured]
    rfl
  obtain ⟨copied, listed⟩ :=
    rebuilt.copied accepted traced (capture_spec captured_graph).1 distinct live
  have root_mem : id ∈ graph.ids := traced.captured _ (List.mem_singleton_self _)
  have root_met : Met types heap names graph root :=
    .inr ⟨id, root_mem, nameOf_eq_some_iff.mpr (.inl found)⟩
  have root_linked : link id = some 0 := (rebuilt.link_iff id 0).mpr rebuilt.first
  have twin_found : referentAt types copy 0 = .ok (.entity id) := by
    cases copied.mirrored root_met with
    | skipped other => cases found.symm.trans other
    | entity other linked twin_found =>
        cases found.symm.trans other
        cases root_linked.symm.trans linked
        exact twin_found
    | valueObject other => cases found.symm.trans other
  have start : image link ⟨[(root, id)], []⟩ = ⟨[(0, id)], []⟩ := by
    rw [image, List.map_singleton, place_of_linked root_linked]
    rfl
  rw [capture, enter_entity ((rootId_eq_ok_iff accepted entity).mpr twin_found) entity]
  simp only [bind, Except.bind]
  rw [← start]
  refine copied.drain_image whole ⟨List.nodup_nil, fun _ member => (nomatch member)⟩
    (fun entry member => ?_) (fun entry member => ?_) (fun other member => .inr (listed member))
    (Nat.le_of_eq rebuilt.size.symm) drained
  · rw [List.mem_singleton.mp member]
    exact nameOf_eq_some_iff.mpr (.inl found)
  · rw [List.mem_singleton.mp member]
    exact .root

end Recapture

end AuditTrail.Shadow
