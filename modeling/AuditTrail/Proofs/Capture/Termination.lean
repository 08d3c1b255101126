import AuditTrail.Proofs.Capture.Picture

/-!
# Captures end

A capture takes what waits in turns, and contents are written out by following references.  Neither
is bounded by anything but the heap: the turns end because every id that is captured is the name of
an instance, and the references because no value object is written out inside itself.
-/

namespace AuditTrail.Capture

open Schema

/-- A capture between two turns. -/
structure Loop where
  /-- What the capture carries from object to object. -/
  walk : Walk
  /-- The ids that were visited, the last one first. -/
  visited : List GlobalId
  /-- The nodes captured so far. -/
  graph : Graph

/-- Where a capture is. -/
inductive Progress where
  /-- It takes another turn. -/
  | going (loop : Loop)
  /-- It has visited some ids and given its answer. -/
  | ended (visited : List GlobalId) (answer : Except CaptureError Graph)

/-- The ids that a capture has visited. -/
def Progress.visited : Progress → List GlobalId
  | going loop => loop.visited
  | ended visited _ => visited

section Turns

variable (types : TypeTable) (heap : Heap)

/-- One turn: capture the object that waits in front, unless its id was visited. -/
def turn : Progress → Progress
  | .ended visited answer => .ended visited answer
  | .going loop =>
    match loop.walk.pending with
    | [] => .ended loop.visited (.ok loop.graph)
    | (slot, id) :: rest =>
      let walk := { loop.walk with pending := rest }
      if id ∈ loop.visited then .going { loop with walk }
      else
        match captureNode types heap slot id walk with
        | .error error => .ended (id :: loop.visited) (.error error)
        | .ok (node, walk) => .going ⟨walk, id :: loop.visited, loop.graph.insert node⟩

/-- A capture before its first turn, or after its roots could not be named. -/
def begin (roots : List Slot) : Progress :=
  match enter types heap roots .empty with
  | .error error => .ended [] (.error error)
  | .ok (ids, walk) => .going ⟨walk, [], .withRoots ids⟩

/-- What every turn preserves. -/
structure Loop.Sound (loop : Loop) : Prop where
  /-- No object is named twice. -/
  proper : loop.walk.Proper
  /-- Whatever waits goes by its name. -/
  waiting : ∀ entry ∈ loop.walk.pending, loop.walk.nameOf types heap entry.1 = some entry.2
  /-- No id was visited twice. -/
  distinct : loop.visited.Nodup
  /-- The ids that were visited are those of the nodes. -/
  nodes : ∀ id, id ∈ loop.visited ↔ id ∈ loop.graph.ids
  /-- The ids that were visited are names of instances. -/
  named : ∀ id ∈ loop.visited, ∃ slot, loop.walk.nameOf types heap slot = some id

end Turns

section Loops

variable {types : TypeTable} {heap : Heap} {loop : Loop} {walk : Walk} {graph : Graph}
  {slot : Slot} {id : GlobalId} {rest : List (Slot × GlobalId)} {room : Nat} {roots : List Slot}
  {definitions : List Definition}

theorem lt_size_of_nameOf (named : walk.nameOf types heap slot = some id) : slot < heap.size := by
  rcases nameOf_eq_some_iff.mp named with found | ⟨object, managed, found, -⟩
  · obtain ⟨object, managed, stands, -⟩ := referentAt_eq_entity_iff.mp found
    exact (List.getElem?_eq_some_iff.mp stands).1
  · exact lt_size_of_valueObject found

/-- There are no more names than instances. -/
theorem length_le_of_named {ids : List GlobalId} (distinct : ids.Nodup)
    (named : ∀ id ∈ ids, ∃ slot, walk.nameOf types heap slot = some id) :
    ids.length ≤ heap.size := by
  have among : ids ⊆ (List.range heap.size).filterMap (walk.nameOf types heap) := by
    intro id member
    obtain ⟨slot, slot_named⟩ := named id member
    exact List.mem_filterMap.mpr
      ⟨slot, List.mem_range.mpr (lt_size_of_nameOf slot_named), slot_named⟩
  have few := (List.subperm_of_subset distinct among).length_le
  have fewer := List.length_filterMap_le (walk.nameOf types heap) (List.range heap.size)
  rw [List.length_range] at fewer
  exact few.trans fewer

theorem drain_of_contains {entry : Slot × GlobalId} (next : walk.pending = entry :: rest)
    (node : graph.contains entry.2) :
    drain types heap room walk graph =
      drain types heap room { walk with pending := rest } graph := by
  have skipped : walk.pending.dropWhile (fun entry => graph.contains entry.2) =
      rest.dropWhile fun entry => graph.contains entry.2 := by
    rw [next]
    exact List.dropWhile_cons_of_pos node
  rw [drain.eq_def, drain.eq_def]
  simp only [skipped]

theorem drain_of_failed {error : CaptureError}
    (next : walk.pending.dropWhile (fun entry => graph.contains entry.2) = (slot, id) :: rest)
    (failed : captureNode types heap slot id { walk with pending := rest } = .error error) :
    drain types heap (room + 1) walk graph = .error error := by
  rw [drain.eq_def]
  simp only [next, failed, bind, Except.bind]

theorem Loop.Sound.mem_visited_iff (sound : loop.Sound types heap) :
    id ∈ loop.visited ↔ loop.graph.contains id := by
  rw [sound.nodes, Graph.mem_ids_iff, Graph.contains_eq]

/-- An id that was visited is passed over. -/
theorem Loop.Sound.skip (sound : loop.Sound types heap)
    (next : loop.walk.pending = (slot, id) :: rest) :
    Loop.Sound types heap { loop with walk := { loop.walk with pending := rest } } where
  proper := ⟨sound.proper.once, sound.proper.owned⟩
  waiting entry member := sound.waiting entry (next ▸ List.mem_cons_of_mem _ member)
  distinct := sound.distinct
  nodes := sound.nodes
  named := sound.named

/-- An id that was not visited becomes that of a node. -/
theorem Loop.Sound.capture {node : Node} {after : Walk} (sound : loop.Sound types heap)
    (next : loop.walk.pending = (slot, id) :: rest) (fresh : id ∉ loop.visited)
    (captured : captureNode types heap slot id { loop.walk with pending := rest } =
      .ok (node, after)) :
    Loop.Sound types heap ⟨after, id :: loop.visited, loop.graph.insert node⟩ := by
  have behind := sound.skip next
  obtain ⟨object, managed, -, rfl, -, settling⟩ := captureNode_depicts behind.proper captured
  have stays : ∀ slot id, loop.walk.nameOf types heap slot = some id →
      after.nameOf types heap slot = some id :=
    fun slot id => nameOf_of_suffix settling.names settling.proper
  refine ⟨settling.proper, settling.named_waiting behind.waiting,
    List.nodup_cons.mpr ⟨fresh, sound.distinct⟩, fun other => ?_, ?_⟩
  · rw [mem_ids_insert_iff, List.mem_cons, sound.nodes]
  · refine List.forall_mem_cons.mpr ⟨⟨slot, ?_⟩, fun id member => ?_⟩
    · exact stays _ _ (sound.waiting (slot, node.id) (next ▸ List.mem_cons_self))
    · obtain ⟨slot, named⟩ := sound.named id member
      exact ⟨slot, stays _ _ named⟩

/-- A turn ends with the answer that draining gives, or it leaves less room or fewer objects that
wait and does not change that answer. -/
theorem Loop.Sound.turn_cases (sound : loop.Sound types heap)
    (enough : heap.size ≤ room + loop.visited.length) :
    (∃ visited, turn types heap (.going loop) =
        .ended visited (drain types heap room loop.walk loop.graph) ∧
      visited.Nodup ∧ visited.length ≤ heap.size) ∨
    ∃ next left, turn types heap (.going loop) = .going next ∧ next.Sound types heap ∧
      heap.size ≤ left + next.visited.length ∧
      drain types heap left next.walk next.graph = drain types heap room loop.walk loop.graph ∧
      Prod.Lex (· < ·) (· < ·) (left, next.walk.pending.length)
        (room, loop.walk.pending.length) := by
  cases next : loop.walk.pending with
  | nil =>
      refine .inl ⟨loop.visited, ?_, sound.distinct,
        length_le_of_named sound.distinct sound.named⟩
      rw [drain_of_finished (by rw [next, List.dropWhile_nil])]
      simp only [turn, next]
  | cons entry rest =>
      obtain ⟨slot, id⟩ := entry
      by_cases seen : id ∈ loop.visited
      · have behind := sound.skip next
        refine .inr ⟨{ loop with walk := { loop.walk with pending := rest } }, room, ?_, behind,
          enough, ?_, ?_⟩
        · simp only [turn, next, seen, if_true]
        · exact (drain_of_contains next (sound.mem_visited_iff.mp seen)).symm
        · exact .right _ (Nat.lt_succ_self _)
      · have named : ∃ slot, loop.walk.nameOf types heap slot = some id :=
          ⟨slot, sound.waiting (slot, id) (next ▸ List.mem_cons_self)⟩
        have distinct : (id :: loop.visited).Nodup := List.nodup_cons.mpr ⟨seen, sound.distinct⟩
        have few := length_le_of_named distinct (List.forall_mem_cons.mpr ⟨named, sound.named⟩)
        rw [List.length_cons] at few
        obtain ⟨room, rfl⟩ : ∃ less, room = less + 1 := ⟨room - 1, by omega⟩
        have comes : loop.walk.pending.dropWhile (fun entry => loop.graph.contains entry.2) =
            (slot, id) :: rest := by
          rw [next]
          exact List.dropWhile_cons_of_neg fun node => seen (sound.mem_visited_iff.mpr node)
        cases captured : captureNode types heap slot id { loop.walk with pending := rest } with
        | error error =>
            refine .inl ⟨id :: loop.visited, ?_, distinct, few⟩
            rw [drain_of_failed comes captured]
            simp only [turn, next, seen, if_false, captured]
        | ok outcome =>
            obtain ⟨node, after⟩ := outcome
            refine .inr ⟨⟨after, id :: loop.visited, loop.graph.insert node⟩, room, ?_,
              sound.capture next seen captured, ?_, ?_, ?_⟩
            · simp only [turn, next, seen, if_false, captured]
            · rw [List.length_cons]
              omega
            · exact (drain_of_next comes captured).symm
            · exact .left _ _ (Nat.lt_succ_self _)

/-- Given room for all that was not visited, turns end with the answer that draining gives. -/
theorem Loop.Sound.ends {loop : Loop} {room : Nat} (sound : loop.Sound types heap)
    (enough : heap.size ≤ room + loop.visited.length) :
    ∃ turns visited, (turn types heap)^[turns] (.going loop) =
      .ended visited (drain types heap room loop.walk loop.graph) := by
  rcases sound.turn_cases enough with
    ⟨visited, ended, -⟩ | ⟨next, left, going, next_sound, left_enough, same, less⟩
  · exact ⟨1, visited, ended⟩
  · obtain ⟨turns, visited, ended⟩ := next_sound.ends left_enough
    refine ⟨turns + 1, visited, ?_⟩
    rw [Function.iterate_succ_apply, going, ended, same]
termination_by (room, loop.walk.pending.length)
decreasing_by exact less

/-- What holds of a capture at every turn. -/
def Progress.Sound (types : TypeTable) (heap : Heap) : Progress → Prop
  | going loop => loop.Sound types heap
  | ended visited _ => visited.Nodup ∧ visited.length ≤ heap.size

theorem Progress.Sound.step {progress : Progress} (sound : progress.Sound types heap) :
    (turn types heap progress).Sound types heap := by
  cases progress with
  | going loop =>
      rcases Loop.Sound.turn_cases sound (Nat.le_add_right _ _) with
        ⟨visited, ended, few⟩ | ⟨next, left, going, next_sound, -⟩
      · rw [ended]
        exact few
      · rw [going]
        exact next_sound
  | ended => exact sound

theorem Progress.Sound.steps {progress : Progress} (sound : progress.Sound types heap)
    (turns : Nat) : ((turn types heap)^[turns] progress).Sound types heap := by
  induction turns generalizing progress with
  | zero => exact sound
  | succ turns induction => exact induction sound.step

/-- No id is visited twice, and no more ids are visited than there are instances. -/
theorem Progress.Sound.visited {progress : Progress} (sound : progress.Sound types heap) :
    progress.visited.Nodup ∧ progress.visited.length ≤ heap.size := by
  cases progress with
  | going loop =>
      have sound : loop.Sound types heap := sound
      exact ⟨sound.distinct, length_le_of_named sound.distinct sound.named⟩
  | ended => exact sound

theorem sound_of_enter (accepted : TypeTable.ofDefinitions definitions = .ok types)
    {ids : List GlobalId} (entered : enter types heap roots .empty = .ok (ids, walk)) :
    Loop.Sound types heap ⟨walk, [], .withRoots ids⟩ := by
  have entering := enter_entering_empty accepted entered
  refine ⟨entering.settling.proper, fun entry member => ?_, List.nodup_nil, fun id => ?_, ?_⟩
  · exact (entering.roots_waiting entry member).2
  · exact iff_of_false List.not_mem_nil List.not_mem_nil
  · exact fun _ member => (nomatch member)

theorem sound_begin (accepted : TypeTable.ofDefinitions definitions = .ok types) :
    (begin types heap roots).Sound types heap := by
  unfold begin
  split
  next => exact ⟨List.nodup_nil, Nat.zero_le _⟩
  next entered => exact sound_of_enter accepted entered

/-- Turns end with what the capture answers. -/
theorem turns_begin (accepted : TypeTable.ofDefinitions definitions = .ok types) :
    ∃ turns visited, (turn types heap)^[turns] (begin types heap roots) =
      .ended visited (capture types heap roots) := by
  unfold begin Capture.capture
  cases entered : enter types heap roots .empty with
  | error error => exact ⟨0, [], rfl⟩
  | ok outcome =>
      obtain ⟨ids, walk⟩ := outcome
      exact (sound_of_enter accepted entered).ends (Nat.le_add_right _ _)

end Loops

section Contents

variable (types : TypeTable) (heap : Heap)

/-- What is written for a reference below the value objects of a path, which are being written.
There is no other bound: what is not on the path is written with all that it refers to. -/
inductive Writes : List Slot → Slot → Except CaptureError String → Prop
  /-- What cannot be looked up cannot be written. -/
  | failed {path : List Slot} {slot : Slot} {error : CaptureError}
      (found : referentAt types heap slot = .error error) : Writes path slot (.error error)
  /-- Instances of ignored classes are written as null. -/
  | skipped {path : List Slot} {slot : Slot} (found : referentAt types heap slot = .ok .skipped) :
      Writes path slot (.ok "null")
  /-- Entities are written as their ids. -/
  | entity {path : List Slot} {slot : Slot} {id : GlobalId}
      (found : referentAt types heap slot = .ok (.entity id)) :
      Writes path slot (.ok ("@" ++ id.display))
  /-- A value object that is being written is written as a cycle. -/
  | cycle {path : List Slot} {slot : Slot} {object : Instance} {managed : ManagedType}
      (found : referentAt types heap slot = .ok (.valueObject object managed))
      (on_path : slot ∈ path) : Writes path slot (.ok "<cycle>")
  /-- Any other value object is written out, itself on the path. -/
  | nested {path : List Slot} {slot : Slot} {object : Instance} {managed : ManagedType}
      {write : Slot → Except CaptureError String}
      (found : referentAt types heap slot = .ok (.valueObject object managed))
      (off_path : slot ∉ path)
      (inside : ∀ target, Follows types heap slot target →
        Writes (slot :: path) target (write target)) :
      Writes path slot ((propertiesContent write object managed.properties).map
        fun written => managed.typeName ++ "(" ++ written ++ ")")

/-- The references that are written when one is, each below the path that leads to it. -/
inductive Calls (root : Slot) : List Slot → Slot → Prop
  /-- The reference itself. -/
  | root : Calls root [] root
  /-- What a value object refers to that is written out. -/
  | nested {path : List Slot} {owner target : Slot} (call : Calls root path owner)
      (off_path : owner ∉ path) (follows : Follows types heap owner target) :
      Calls root (owner :: path) target

variable {types heap} {path : List Slot} {slot root : Slot} {room : Nat}
  {definitions : List Definition}

/-- A reference is written without a bound, if value objects off the path are. -/
theorem writes_of_nested (nested : ∀ object managed,
      referentAt types heap slot = .ok (.valueObject object managed) → slot ∉ path →
        Writes types heap path slot (refContent types heap room path slot)) :
    Writes types heap path slot (refContent types heap room path slot) := by
  cases found : referentAt types heap slot with
  | error => exact refContent_of_error found ▸ .failed found
  | ok referent =>
      cases referent with
      | skipped => exact refContent_of_skipped found ▸ .skipped found
      | entity => exact refContent_of_entity found ▸ .entity found
      | valueObject object managed =>
          by_cases on_path : slot ∈ path
          · exact refContent_of_mem found on_path ▸ .cycle found on_path
          · exact nested object managed found on_path

/-- Given room for every instance that is not on the path, contents are written without a bound. -/
theorem writes_refContent (distinct : path.Nodup) (inside : ∀ slot ∈ path, slot < heap.size)
    (enough : heap.size ≤ room + path.length) :
    Writes types heap path slot (refContent types heap room path slot) := by
  induction room generalizing path slot with
  | zero =>
      refine writes_of_nested fun object managed found off_path => ?_
      have longer := length_le_size (List.nodup_cons.mpr ⟨off_path, distinct⟩)
        (List.forall_mem_cons.mpr ⟨lt_size_of_valueObject found, inside⟩)
      rw [List.length_cons] at longer
      omega
  | succ room induction =>
      refine writes_of_nested fun object managed found off_path => ?_
      rw [refContent_of_notMem found off_path]
      refine .nested found off_path fun target _ => ?_
      apply induction (List.nodup_cons.mpr ⟨off_path, distinct⟩)
        (List.forall_mem_cons.mpr ⟨lt_size_of_valueObject found, inside⟩)
      rw [List.length_cons]
      omega

/-- There is one thing to write for a reference. -/
theorem Writes.unique {first second : Except CaptureError String}
    (writes : Writes types heap path slot first) (also : Writes types heap path slot second) :
    first = second := by
  induction writes generalizing second with
  | failed found =>
      cases also <;> simp_all
  | skipped found => cases also <;> simp_all
  | entity found => cases also <;> simp_all
  | cycle found on_path => cases also <;> simp_all
  | @nested path slot object managed write found off_path inside induction =>
      cases also with
      | failed other | skipped other | entity other => simp_all
      | cycle _ on_path => exact absurd on_path off_path
      | nested other _ other_inside =>
          obtain ⟨rfl, rfl⟩ : _ = _ ∧ _ = _ := by simpa using found.symm.trans other
          rw [propertiesContent_congr fun property declared value set target refers => ?_]
          have follows : Follows types heap slot target :=
            ⟨object, managed, found, property, declared, value, set, refers⟩
          exact induction target follows (other_inside target follows)

/-- A content is what writing comes to. -/
theorem writes_iff {result : Except CaptureError String} :
    Writes types heap [] slot result ↔ result = content types heap (.ref slot) := by
  have writes : Writes types heap [] slot (content types heap (.ref slot)) :=
    writes_refContent List.nodup_nil (fun _ member => (nomatch member)) (Nat.le_refl _)
  refine ⟨fun also => also.unique writes, ?_⟩
  rintro rfl
  exact writes

/-- No value object is written out inside itself. -/
theorem Calls.distinct (call : Calls types heap root path slot) :
    path.Nodup ∧ ∀ slot ∈ path, slot < heap.size := by
  induction call with
  | root => exact ⟨List.nodup_nil, fun _ member => (nomatch member)⟩
  | nested _ off_path follows induction =>
      obtain ⟨object, managed, found, -⟩ := follows
      refine ⟨List.nodup_cons.mpr ⟨off_path, induction.1⟩, ?_⟩
      exact List.forall_mem_cons.mpr ⟨lt_size_of_valueObject found, induction.2⟩

/-- Whatever refers to what, captures end: turns end with the answer of the capture, no id is
visited twice, and no more ids are visited than there are instances.  Contents are written out
without a bound, no value object inside itself, and so none more deeply than there are instances. -/
theorem capture_ends (accepted : TypeTable.ofDefinitions definitions = .ok types)
    (heap : Heap) (roots : List Slot) :
    (∃ turns visited, (turn types heap)^[turns] (begin types heap roots) =
      .ended visited (capture types heap roots)) ∧
    (∀ turns, ((turn types heap)^[turns] (begin types heap roots)).visited.Nodup ∧
      ((turn types heap)^[turns] (begin types heap roots)).visited.length ≤ heap.size) ∧
    (∀ slot result, Writes types heap [] slot result ↔ result = content types heap (.ref slot)) ∧
    ∀ root path slot, Calls types heap root path slot → path.Nodup ∧ path.length ≤ heap.size := by
  refine ⟨turns_begin accepted, fun turns => ?_, fun _ _ => writes_iff, ?_⟩
  · exact ((sound_begin accepted).steps turns).visited
  · intro root path slot call
    exact ⟨call.distinct.1, length_le_size call.distinct.1 call.distinct.2⟩

/-- Two tags of a user refer to each other through a list, and one of them to itself and back to the
user.  Turns end with a graph of three nodes, and no path is longer than three. -/
theorem capture_ends_cyclic :
    let user : Definition :=
      .entity ⟨"User", none, [⟨"id", .named "int", true, false⟩,
        ⟨"tags", .set (.named "Tag"), false, false⟩], []⟩ none
    let tag : Definition :=
      .valueObject ⟨"Tag", none, [⟨"name", .named "string", false, false⟩,
        ⟨"near", .list (.named "Tag"), false, false⟩, ⟨"of", .named "User", false, false⟩], []⟩
    let heap : Heap :=
      ⟨[.ofList "User" [("id", .scalar (.int 1)), ("tags", .seq [.ref 1, .ref 2])],
        .ofList "Tag" [("name", .scalar (.text "a")), ("near", .seq [.ref 2])],
        .ofList "Tag" [("near", .seq [.ref 1, .ref 2]), ("of", .ref 0)]]⟩
    ∃ types graph, TypeTable.ofDefinitions [user, tag] = .ok types ∧ graph.size = 3 ∧
      (∃ turns visited,
        (turn types heap)^[turns] (begin types heap [0]) = .ended visited (.ok graph)) ∧
      Calls types heap 1 [2, 1] 1 ∧
      ∀ root path slot, Calls types heap root path slot → path.Nodup ∧ path.length ≤ 3 := by
  intro user tag heap
  obtain ⟨types, accepted⟩ : ∃ types, TypeTable.ofDefinitions [user, tag] = .ok types := ⟨_, rfl⟩
  have usual : ∀ types ∈ (TypeTable.ofDefinitions [user, tag]).toOption,
      ∃ graph ∈ (capture types heap [0]).toOption, graph.size = 3 := by decide +kernel
  obtain ⟨graph, captured, three⟩ := usual types (mem_toOption accepted)
  rw [mem_toOption_iff] at captured
  obtain ⟨ended, -, -, paths⟩ := capture_ends accepted heap [0]
  rw [captured] at ended
  have near : Follows types heap 1 2 ∧ Follows types heap 2 1 := by
    cases accepted
    refine ⟨⟨_, _, rfl, ⟨"near", .list (.named "Tag")⟩, ?_, _, rfl, ?_⟩,
      ⟨_, _, rfl, ⟨"near", .list (.named "Tag")⟩, ?_, _, rfl, ?_⟩⟩ <;> decide
  refine ⟨types, graph, accepted, three, ended, ?_, paths⟩
  exact .nested (.nested .root List.not_mem_nil near.1) (by decide) near.2

end Contents

end AuditTrail.Capture
