import AuditTrail.Proofs.State
import AuditTrail.Proofs.Value.Equality
import AuditTrail.Proofs.Value.Relink

/-!
# Equality of states

A state that is set up from nothing is a finite map: it stores no name twice and no null, and is
equal to another one exactly when all their properties are.  Equality looks at the properties of one
side only and at the sizes, so this rests on counting: a state whose names are all among those of
another one of the same size has the same names.
-/

namespace AuditTrail.State

variable {state left right : State}

/-- A state that stores no name twice and no null. -/
structure WellFormed (state : State) : Prop where
  /-- No name is stored twice. -/
  distinct : state.names.Nodup
  /-- No null is stored. -/
  stored : ∀ entry ∈ state.entries, ¬ entry.2.isNull

theorem wellFormed_ofList (settings : List (String × Captured)) : (ofList settings).WellFormed where
  distinct := nodup_names_ofList settings
  stored := stored_ofList settings

namespace WellFormed

theorem mem_names_iff (formed : state.WellFormed) {name : String} :
    name ∈ state.names ↔ ¬ (state.get name).isNull := by
  constructor
  · intro member
    obtain ⟨entry, stored, rfl⟩ := List.mem_map.mp member
    rw [get_of_mem formed.distinct stored]
    exact formed.stored entry stored
  · intro set
    have stored := mem_entries_of_get_ne_null fun null => set (by rw [null]; rfl)
    exact List.mem_map_of_mem stored

theorem get_of_notMem (formed : state.WellFormed) {name : String} (absent : name ∉ state.names) :
    state.get name = .null := by
  rw [formed.mem_names_iff, not_not] at absent
  exact Value.eq_null_of_isNull absent

/-- States with the same properties have the same names, in some order. -/
theorem names_perm (left_formed : left.WellFormed) (right_formed : right.WellFormed)
    (agree : ∀ name, left.get name == right.get name) : left.names.Perm right.names := by
  refine (List.perm_ext_iff_of_nodup left_formed.distinct right_formed.distinct).mpr fun name => ?_
  rw [left_formed.mem_names_iff, right_formed.mem_names_iff, Value.isNull_eq_of_beq (agree name)]

/-- A state all of whose properties are the same in another one of its size has the same names as
that one, in some order. -/
theorem names_perm_of_size_eq (left_formed : left.WellFormed) (right_formed : right.WellFormed)
    (sizes : left.size = right.size)
    (agree : ∀ name ∈ left.names, left.get name == right.get name) :
    left.names.Perm right.names := by
  have among : left.names ⊆ right.names := by
    intro name member
    rw [right_formed.mem_names_iff, ← Value.isNull_eq_of_beq (agree name member)]
    exact left_formed.mem_names_iff.mp member
  have lengths : right.names.length ≤ left.names.length := by
    rw [length_names, length_names]
    exact sizes.ge
  exact (List.subperm_of_subset left_formed.distinct among).perm_of_length_le lengths

/-- States are equal exactly when all their properties are. -/
theorem beq_iff (left_formed : left.WellFormed) (right_formed : right.WellFormed) :
    left == right ↔ ∀ name, left.get name == right.get name := by
  change left.same right ↔ _
  rw [same, Bool.and_eq_true, beq_iff_eq, List.all_eq_true]
  constructor
  · rintro ⟨sizes, entries⟩ name
    have agree (name : String) (member : name ∈ left.names) : left.get name == right.get name := by
      obtain ⟨entry, stored, rfl⟩ := List.mem_map.mp member
      rw [get_of_mem left_formed.distinct stored]
      exact BEq.symm (entries entry stored)
    by_cases member : name ∈ left.names
    · exact agree name member
    · have perm := names_perm_of_size_eq left_formed right_formed sizes agree
      rw [left_formed.get_of_notMem member,
        right_formed.get_of_notMem fun other => member (perm.mem_iff.mpr other)]
      exact BEq.rfl
  · intro agree
    have lengths := (names_perm left_formed right_formed agree).length_eq
    rw [length_names, length_names] at lengths
    refine ⟨lengths, fun entry stored => BEq.symm ?_⟩
    rw [← get_of_mem left_formed.distinct stored]
    exact agree entry.1

/-- The order of the entries does not count. -/
theorem beq_of_perm (left_formed : left.WellFormed) (right_formed : right.WellFormed)
    (perm : left.entries.Perm right.entries) : left == right := by
  rw [left_formed.beq_iff right_formed]
  intro name
  by_cases member : name ∈ left.names
  · obtain ⟨entry, stored, rfl⟩ := List.mem_map.mp member
    rw [get_of_mem left_formed.distinct stored,
      get_of_mem right_formed.distinct (perm.mem_iff.mp stored)]
    exact BEq.rfl
  · rw [left_formed.get_of_notMem member,
      right_formed.get_of_notMem fun other => member ((perm.map _).mem_iff.mpr other)]
    exact BEq.rfl

end WellFormed

theorem ofList_beq_iff (settings others : List (String × Captured)) :
    ofList settings == ofList others ↔
      ∀ name, (ofList settings).get name == (ofList others).get name :=
  (wellFormed_ofList settings).beq_iff (wellFormed_ofList others)

/-- Having the same properties is an equivalence, so equality of states is one. -/
theorem equivalence_ofList :
    Equivalence fun settings others : List (String × Captured) =>
      (ofList settings == ofList others) = true where
  refl settings := (ofList_beq_iff settings settings).mpr fun _ => BEq.rfl
  symm equal := (ofList_beq_iff _ _).mpr fun name => BEq.symm ((ofList_beq_iff _ _).mp equal name)
  trans first second := (ofList_beq_iff _ _).mpr fun name =>
    BEq.trans ((ofList_beq_iff _ _).mp first name) ((ofList_beq_iff _ _).mp second name)

/-- The names of a state that is set up stay in their places when one more property is set. -/
theorem names_ofList_concat (settings : List (String × Captured)) (name : String)
    (value : Captured) :
    (ofList (settings ++ [(name, value)])).names =
      if value.isNull then (ofList settings).names.erase name
      else if name ∈ (ofList settings).names then (ofList settings).names
      else (ofList settings).names ++ [name] := by
  rw [ofList_concat, names_insert]

/-- A name that was set to null and not since is not stored. -/
theorem notMem_names_of_removed {name : String} {later : List (String × Captured)}
    (untouched : name ∉ later.map Prod.fst) (settings : List (String × Captured)) :
    name ∉ (ofList (settings ++ (name, .null) :: later)).names := by
  have unset : later.filter (fun setting => setting.1 == name) = [] := by
    refine List.filter_eq_nil_iff.mpr fun setting member named => untouched ?_
    exact beq_iff_eq.mp named ▸ List.mem_map_of_mem member
  have last : lastValue (settings ++ (name, .null) :: later) name = .null := by
    simp [lastValue, List.filter_append, unset]
  rw [(wellFormed_ofList _).mem_names_iff, get_ofList_eq_lastValue, last]
  exact not_not.mpr rfl

/-- Setting up a state from nothing gives a finite map.  It stores no name twice and no null, and
every property has the value that it was set to last.  A name that is there keeps its place, one
that was taken out returns at the end.  Two such states are equal exactly when all their properties
are, so equality is an equivalence; neither the order of the entries counts nor how the settings of
different names were interleaved. -/
theorem ofList_isFiniteMap (settings others : List (String × Captured)) :
    (ofList settings).names.Nodup ∧ (∀ entry ∈ (ofList settings).entries, ¬ entry.2.isNull) ∧
      (∀ name, (ofList settings).get name = lastValue settings name) ∧
      (∀ name value, (ofList (settings ++ [(name, value)])).names =
        if value.isNull then (ofList settings).names.erase name
        else if name ∈ (ofList settings).names then (ofList settings).names
        else (ofList settings).names ++ [name]) ∧
      (∀ name value later, ¬ value.isNull → name ∉ later.map Prod.fst →
        (ofList (settings ++ (name, .null) :: later ++ [(name, value)])).names =
          (ofList (settings ++ (name, .null) :: later)).names ++ [name]) ∧
      (ofList settings == ofList others ↔
        ∀ name, (ofList settings).get name == (ofList others).get name) ∧
      (Equivalence fun settings others : List (String × Captured) =>
        (ofList settings == ofList others) = true) ∧
      ((ofList settings).entries.Perm (ofList others).entries → ofList settings == ofList others) ∧
      ((∀ name, settings.filter (fun setting => setting.1 == name) =
          others.filter fun setting => setting.1 == name) →
        ofList settings == ofList others) := by
  have formed := wellFormed_ofList settings
  refine ⟨formed.distinct, formed.stored, get_ofList_eq_lastValue settings,
    names_ofList_concat settings, ?removed, ofList_beq_iff settings others, equivalence_ofList,
    formed.beq_of_perm (wellFormed_ofList others), ?interleaved⟩
  case removed =>
    intro name value later nonnull untouched
    rw [names_ofList_concat, if_neg nonnull,
      if_neg (notMem_names_of_removed untouched settings)]
  case interleaved =>
    intro same
    refine (ofList_beq_iff settings others).mpr fun name => ?_
    rw [get_ofList_eq_lastValue, get_ofList_eq_lastValue, lastValue, same name, ← lastValue]
    exact BEq.rfl

/-- Two names are set in either order, one of them twice; then it is taken out and returns behind a
third one. -/
theorem ofList_isFiniteMap_interleaved :
    let old : Captured := .scalar (.text "Paris")
    let new : Captured := .scalar (.text "Rome")
    let zip : Captured := .scalar (.int 75001)
    let settings := [("city", old), ("zip", zip), ("city", new)]
    let others := [("zip", zip), ("city", old), ("city", new)]
    let removed := settings ++ ("city", .null) :: [("street", old)]
    (ofList settings).names = ["city", "zip"] ∧ (ofList others).names = ["zip", "city"] ∧
      ofList settings == ofList others ∧ ofList others == ofList settings ∧
      (ofList (removed ++ [("city", new)])).names = ["zip", "street", "city"] := by
  intro old new zip settings others removed
  have perm : (ofList settings).entries.Perm (ofList others).entries := List.Perm.swap _ _ []
  have interleaved (name : String) : others.filter (fun setting => setting.1 == name) =
      settings.filter fun setting => setting.1 == name := by
    by_cases city : "city" = name
    · subst city
      rfl
    · simp [others, settings, List.filter_cons, city]
  obtain ⟨-, -, -, -, returns, -, -, of_perm, -⟩ := ofList_isFiniteMap settings others
  obtain ⟨-, -, -, -, -, -, -, -, of_interleaved⟩ := ofList_isFiniteMap others settings
  have returned := returns "city" new [("street", old)] (by decide) (by decide)
  exact ⟨rfl, rfl, of_perm perm, of_interleaved interleaved, returned.trans rfl⟩

end AuditTrail.State
