import AuditTrail.State
import Mathlib

/-!
# States as maps

As long as no name is stored twice, setting a property changes the value of its name only, and no
name gets stored twice.  So in a state that is set up from nothing every property has the value that
it was set to last.
-/

namespace AuditTrail.State

theorem contains_iff {state : State} {name : String} :
    state.contains name ↔ name ∈ state.names := by
  simp only [contains, names, List.any_eq_true, List.mem_map, beq_iff_eq]

theorem contains_eq (state : State) (name : String) :
    state.contains name = decide (name ∈ state.names) := by
  rw [Bool.eq_iff_iff, contains_iff, decide_eq_true_iff]

theorem length_names (state : State) : state.names.length = state.size := List.length_map _

private theorem get_nil (name : String) : get ⟨[]⟩ name = .null := rfl

private theorem get_cons (name : String) (entry : String × Captured)
    (rest : List (String × Captured)) :
    get ⟨entry :: rest⟩ name = if entry.1 = name then entry.2 else get ⟨rest⟩ name := by
  by_cases here : entry.1 = name <;> simp [get, here]

private theorem get_of_absent {name : String} {entries : List (String × Captured)}
    (absent : name ∉ entries.map (·.1)) : get ⟨entries⟩ name = .null := by
  induction entries with
  | nil => rfl
  | cons entry rest induction =>
      rw [List.map_cons, List.mem_cons, not_or] at absent
      rw [get_cons, if_neg (Ne.symm absent.1), induction absent.2]

private theorem get_append (name : String) (entries : List (String × Captured))
    (last : String × Captured) (absent : last.1 ∉ entries.map (·.1)) :
    get ⟨entries ++ [last]⟩ name = if last.1 = name then last.2 else get ⟨entries⟩ name := by
  induction entries with
  | nil => rw [List.nil_append, get_cons]
  | cons entry rest induction =>
      rw [List.map_cons, List.mem_cons, not_or] at absent
      rw [List.cons_append, get_cons, get_cons, induction absent.2]
      by_cases here : entry.1 = name
      · rw [if_pos here, if_neg, if_pos here]
        exact fun same => absent.1 (same.trans here.symm)
      · rw [if_neg here, if_neg here]

private theorem get_replaceFirst (name other : String) (value : Captured)
    {entries : List (String × Captured)} (present : name ∈ entries.map (·.1)) :
    get ⟨replaceFirst name value entries⟩ other =
      if name = other then value else get ⟨entries⟩ other := by
  induction entries with
  | nil => simp at present
  | cons entry rest induction =>
      rw [replaceFirst]
      by_cases here : entry.1 = name
      · rw [if_pos (beq_iff_eq.mpr here), get_cons, get_cons, here]
        split <;> rfl
      · rw [if_neg (by simpa using here), get_cons, get_cons]
        rw [List.map_cons, List.mem_cons] at present
        rw [induction (present.resolve_left (Ne.symm here))]
        by_cases same : entry.1 = other
        · rw [if_pos same, if_neg, if_pos same]
          exact fun equal => here (same.trans equal.symm)
        · rw [if_neg same, if_neg same]

private theorem get_removeFirst (name other : String) {entries : List (String × Captured)}
    (distinct : (entries.map (·.1)).Nodup) :
    get ⟨removeFirst name entries⟩ other =
      if name = other then .null else get ⟨entries⟩ other := by
  induction entries with
  | nil => simp [removeFirst, get_nil]
  | cons entry rest induction =>
      obtain ⟨absent, rest_distinct⟩ := List.nodup_cons.mp distinct
      rw [removeFirst]
      by_cases here : entry.1 = name
      · rw [if_pos (beq_iff_eq.mpr here), get_cons, here]
        by_cases same : name = other
        · rw [if_pos same, ← same, ← here]
          exact get_of_absent absent
        · rw [if_neg same, if_neg same]
      · rw [if_neg (by simpa using here), get_cons, get_cons, induction rest_distinct]
        by_cases same : entry.1 = other
        · rw [if_pos same, if_neg, if_pos same]
          exact fun equal => here (same.trans equal.symm)
        · rw [if_neg same, if_neg same]

/-- Setting a property changes the value of its name only. -/
theorem get_insert {state : State} (distinct : state.names.Nodup) (name other : String)
    (value : Captured) :
    (state.insert name value).get other = if name = other then value else state.get other := by
  obtain ⟨entries⟩ := state
  unfold insert
  cases present : contains ⟨entries⟩ name with
  | true =>
      have member : name ∈ entries.map (·.1) := contains_iff.mp present
      cases value with
      | null => exact get_removeFirst name other distinct
      | scalar | ref | seq | map => exact get_replaceFirst name other _ member
  | false =>
      have absent : name ∉ entries.map (·.1) := by
        intro member
        rw [contains_iff.mpr member] at present
        simp at present
      cases value with
      | null =>
          change get ⟨entries⟩ other = if name = other then _ else get ⟨entries⟩ other
          split
          next same => rw [← same, get_of_absent absent]
          next => rfl
      | scalar | ref | seq | map => exact get_append other entries (name, _) absent

theorem names_replaceFirst (name : String) (value : Captured)
    (entries : List (String × Captured)) :
    (replaceFirst name value entries).map (·.1) = entries.map (·.1) := by
  induction entries with
  | nil => rfl
  | cons entry rest induction =>
      rw [replaceFirst]
      split
      · rfl
      · rw [List.map_cons, List.map_cons, induction]

theorem removeFirst_sublist (name : String) (entries : List (String × Captured)) :
    (removeFirst name entries).Sublist entries := by
  induction entries with
  | nil => exact List.Sublist.slnil
  | cons entry rest induction =>
      rw [removeFirst]
      split
      · exact List.sublist_cons_self entry rest
      · exact induction.cons_cons entry

theorem names_removeFirst (name : String) (entries : List (String × Captured)) :
    (removeFirst name entries).map (·.1) = (entries.map (·.1)).erase name := by
  induction entries with
  | nil => rfl
  | cons entry rest induction =>
      rw [removeFirst, List.map_cons, List.erase_cons]
      split
      · rfl
      · rw [List.map_cons, induction]

/-- Setting a property leaves the names in their places: null takes a name out, and a name that is
not there goes to the end. -/
theorem names_insert (state : State) (name : String) (value : Captured) :
    (state.insert name value).names =
      if value.isNull then state.names.erase name
      else if name ∈ state.names then state.names
      else state.names ++ [name] := by
  rw [insert, contains_eq]
  by_cases present : name ∈ state.names
  · rw [decide_eq_true present]
    cases value.isNull with
    | true => exact names_removeFirst name state.entries
    | false =>
        rw [if_neg Bool.false_ne_true, if_pos present]
        exact names_replaceFirst name value state.entries
  · rw [decide_eq_false present]
    cases value.isNull with
    | true => rw [if_pos rfl, List.erase_of_not_mem present, names]
    | false =>
        rw [if_neg Bool.false_ne_true, if_neg present]
        exact List.map_append

theorem nodup_names_insert {state : State} (distinct : state.names.Nodup) (name : String)
    (value : Captured) : (state.insert name value).names.Nodup := by
  rw [names_insert]
  split
  next => exact distinct.erase name
  next =>
    split
    next => exact distinct
    next absent => exact List.concat_eq_append ▸ distinct.concat absent

theorem mem_names_insert {state : State} {name other : String} {value : Captured}
    (member : other ∈ (state.insert name value).names) : other = name ∨ other ∈ state.names := by
  rw [names_insert] at member
  split at member
  next => exact .inr (List.mem_of_mem_erase member)
  next =>
    split at member
    next => exact .inr member
    next => exact (List.mem_append.mp member).symm.imp_left List.mem_singleton.mp

theorem mem_replaceFirst {name : String} {value : Captured} {entry : String × Captured}
    {entries : List (String × Captured)} (member : entry ∈ replaceFirst name value entries) :
    entry = (name, value) ∨ entry ∈ entries := by
  induction entries with
  | nil => cases member
  | cons head rest induction =>
      rw [replaceFirst] at member
      split at member
      next here =>
        rw [beq_iff_eq.mp here] at member
        exact (List.mem_cons.mp member).imp_right (List.mem_cons_of_mem _)
      · rcases List.mem_cons.mp member with rfl | later
        · exact .inr List.mem_cons_self
        · exact (induction later).imp_right (List.mem_cons_of_mem _)

/-- Setting a property stores nothing else. -/
theorem mem_entries_insert {state : State} {name : String} {value : Captured}
    {entry : String × Captured} (member : entry ∈ (state.insert name value).entries) :
    entry = (name, value) ∨ entry ∈ state.entries := by
  unfold insert at member
  split at member
  next => exact .inr ((removeFirst_sublist name state.entries).subset member)
  next => exact mem_replaceFirst member
  next => exact .inr member
  next => exact (List.mem_append.mp member).symm.imp_left List.mem_singleton.mp

theorem mem_references_insert {state : State} {name : String} {value : Captured} {id : GlobalId}
    (member : id ∈ (state.insert name value).references) :
    id ∈ state.references ∨ id ∈ value.references := by
  obtain ⟨entry, stored, refers⟩ := List.mem_flatMap.mp member
  rcases mem_entries_insert stored with rfl | older
  · exact .inr refers
  · exact .inl (List.mem_flatMap.mpr ⟨entry, older, refers⟩)

/-- As long as no name is stored twice, what is stored under a name is its value. -/
theorem get_of_mem {state : State} (distinct : state.names.Nodup) {entry : String × Captured}
    (member : entry ∈ state.entries) : state.get entry.1 = entry.2 := by
  obtain ⟨entries⟩ := state
  induction entries with
  | nil => cases member
  | cons head rest induction =>
      obtain ⟨absent, rest_distinct⟩ := List.nodup_cons.mp distinct
      rw [get_cons]
      rcases List.mem_cons.mp member with rfl | later
      · rw [if_pos rfl]
      · have other : head.1 ≠ entry.1 := by
          intro same
          exact absent (List.mem_map.mpr ⟨entry, later, same.symm⟩)
        rw [if_neg other]
        exact induction rest_distinct later

theorem mem_entries_of_get_ne_null {state : State} {name : String} (set : state.get name ≠ .null) :
    (name, state.get name) ∈ state.entries := by
  obtain ⟨entries⟩ := state
  induction entries with
  | nil => exact absurd rfl set
  | cons head rest induction =>
      rw [get_cons] at set ⊢
      by_cases here : head.1 = name
      · rw [if_pos here, ← here]
        exact List.mem_cons_self
      · rw [if_neg here] at set ⊢
        exact List.mem_cons_of_mem _ (induction set)

theorem mem_names_of_mem_references {state : State} {name : String} {id : GlobalId}
    (refers : id ∈ (state.get name).references) : name ∈ state.names := by
  by_contra absent
  rw [show state.get name = .null from get_of_absent absent] at refers
  cases refers

/-- What a state refers to is what its properties refer to. -/
theorem mem_references_iff {state : State} (distinct : state.names.Nodup) {id : GlobalId} :
    id ∈ state.references ↔ ∃ name ∈ state.names, id ∈ (state.get name).references := by
  rw [references, List.mem_flatMap]
  constructor
  · rintro ⟨entry, member, refers⟩
    refine ⟨entry.1, List.mem_map_of_mem member, ?_⟩
    rwa [get_of_mem distinct member]
  · rintro ⟨name, stored, refers⟩
    obtain ⟨entry, member, rfl⟩ := List.mem_map.mp stored
    rw [get_of_mem distinct member] at refers
    exact ⟨entry, member, refers⟩

/-- Setting a property to null changes nothing where it is not stored. -/
theorem insert_null_of_absent {state : State} {name : String} (absent : name ∉ state.names) :
    state.insert name .null = state := by
  rw [insert, contains_eq, decide_eq_false absent]
  rfl

theorem ofList_concat (settings : List (String × Captured)) (setting : String × Captured) :
    ofList (settings ++ [setting]) = (ofList settings).insert setting.1 setting.2 := by
  rw [ofList, List.foldl_concat, ofList]

/-- What holds of the empty state and is kept by setting a property holds of every state that is
set up. -/
theorem ofList_induction {motive : State → Prop} (empty : motive .empty)
    (insert : ∀ state name value, motive state → motive (state.insert name value))
    (settings : List (String × Captured)) : motive (ofList settings) := by
  induction settings using List.reverseRecOn with
  | nil => exact empty
  | append_singleton settings setting induction =>
      rw [ofList_concat]
      exact insert _ _ _ induction

theorem nodup_names_ofList (settings : List (String × Captured)) :
    (ofList settings).names.Nodup :=
  ofList_induction (motive := fun state => state.names.Nodup) List.nodup_nil
    (fun _ name value distinct => nodup_names_insert distinct name value) settings

/-- The value that a property was set to last; null if it was never set. -/
def lastValue (settings : List (String × Captured)) (name : String) : Captured :=
  match (settings.filter fun setting => setting.1 == name).getLast? with
  | some (_, value) => value
  | none => .null

theorem lastValue_concat (settings : List (String × Captured)) (setting : String × Captured)
    (name : String) :
    lastValue (settings ++ [setting]) name =
      if setting.1 = name then setting.2 else lastValue settings name := by
  by_cases here : setting.1 = name <;> simp [lastValue, here]

/-- In a state that is set up, every property has the value that it was set to last. -/
theorem get_ofList_eq_lastValue (settings : List (String × Captured)) (name : String) :
    (ofList settings).get name = lastValue settings name := by
  induction settings using List.reverseRecOn with
  | nil => rfl
  | append_singleton settings setting induction =>
      rw [ofList_concat, get_insert (nodup_names_ofList settings), lastValue_concat, induction]

/-- Where every name has one value, the last setting of a name is as good as any. -/
theorem get_ofList (value : String → Captured) {settings : List (String × Captured)}
    (functional : ∀ setting ∈ settings, setting.2 = value setting.1) (name : String) :
    (ofList settings).get name = if name ∈ settings.map Prod.fst then value name else .null := by
  rw [get_ofList_eq_lastValue, lastValue]
  cases last : (settings.filter fun setting => setting.1 == name).getLast? with
  | none =>
      have absent : name ∉ settings.map Prod.fst := by
        intro set
        obtain ⟨setting, member, rfl⟩ := List.mem_map.mp set
        have unset := List.filter_eq_nil_iff.mp (List.getLast?_eq_none_iff.mp last) setting member
        exact unset (beq_self_eq_true setting.1)
      rw [if_neg absent]
  | some setting =>
      obtain ⟨member, named⟩ := List.mem_filter.mp (List.mem_of_getLast? last)
      obtain rfl : setting.1 = name := beq_iff_eq.mp named
      rw [if_pos (List.mem_map_of_mem member)]
      exact functional setting member

/-- Setting up a state from the properties of another one gives the same values. -/
theorem get_ofList_entries {state : State} (distinct : state.names.Nodup) (name : String) :
    (ofList state.entries).get name = state.get name := by
  rw [get_ofList state.get fun setting member => (get_of_mem distinct member).symm]
  split
  next => rfl
  next absent => exact (get_of_absent absent).symm

theorem stored_insert {state : State} (stored : ∀ entry ∈ state.entries, ¬ entry.2.isNull)
    (name : String) (value : Captured) :
    ∀ entry ∈ (state.insert name value).entries, ¬ entry.2.isNull := by
  intro entry member
  unfold insert at member
  split at member
  next => exact stored entry ((removeFirst_sublist name state.entries).subset member)
  next nonnull =>
    rcases mem_replaceFirst member with rfl | older
    · exact Bool.eq_false_iff.mp nonnull
    · exact stored entry older
  next => exact stored entry member
  next nonnull =>
    rcases List.mem_append.mp member with older | here
    · exact stored entry older
    · rw [List.mem_singleton.mp here]
      exact Bool.eq_false_iff.mp nonnull

/-- No state that is set up stores null. -/
theorem stored_ofList (settings : List (String × Captured)) :
    ∀ entry ∈ (ofList settings).entries, ¬ entry.2.isNull :=
  ofList_induction (motive := fun state => ∀ entry ∈ state.entries, ¬ entry.2.isNull)
    (fun _ member => nomatch member) (fun _ name value stored => stored_insert stored name value)
    settings

end AuditTrail.State
