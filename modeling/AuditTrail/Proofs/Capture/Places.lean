import AuditTrail.Proofs.Capture.Tracing

/-!
# Places of references

A reference lies at a place below the object that holds it: the name of a property, then positions
and printed keys on the way down.  A capture names a value object by the place at which the object
that it captures refers to it, unless the place is in a set.
-/

namespace AuditTrail

open Schema

namespace Value

section Places

variable {ρ τ : Type} (print : Value ρ → String)

mutual

/-- What a value found at a path refers to, with the places.  Elements and keys lie at their
position, what is under a key at the printed form of the key. -/
def places (path : String) : Value ρ → List (String × ρ)
  | null => []
  | scalar _ => []
  | ref target => [(path, target)]
  | seq items => placesOfItems path 0 items
  | map entries => placesOfEntries path 0 entries

/-- The places of the elements of a sequence, the first of them at position `index`. -/
def placesOfItems (path : String) (index : Nat) : List (Value ρ) → List (String × ρ)
  | [] => []
  | item :: rest =>
    item.places (path ++ "/" ++ toString index) ++ placesOfItems path (index + 1) rest

/-- The places of the entries of a map, the first of them at position `index`. -/
def placesOfEntries (path : String) (index : Nat) :
    List (Value ρ × Value ρ) → List (String × ρ)
  | [] => []
  | (key, value) :: rest =>
    key.places (path ++ "/" ++ toString index) ++
      value.places (path ++ "/" ++ print key) ++ placesOfEntries path (index + 1) rest

end

end Places

section Relinked

variable {ρ : Type} (link : ρ → Option GlobalId)

/-- The place of a reference that has a translation. -/
def relinkPlace (entry : String × ρ) : Option (String × GlobalId) :=
  (link entry.2).map (Prod.mk entry.1)

mutual

/-- The references of a translated value lie where they lay, keys being printed as translated. -/
theorem places_relink (path : String) (value : Value ρ) :
    (value.relink link).places display path =
      (value.places (fun key => (key.relink link).display) path).filterMap (relinkPlace link) := by
  cases value with
  | null | scalar => simp only [relink, places, List.filterMap_nil]
  | ref target => cases linked : link target <;> simp [relink, places, relinkPlace, linked]
  | seq items => simp only [relink, places, placesOfItems_relink path 0 items]
  | map entries => simp only [relink, places, placesOfEntries_relink path 0 entries]

theorem placesOfItems_relink (path : String) (index : Nat) (items : List (Value ρ)) :
    placesOfItems display path index (relinkItems link items) =
      (placesOfItems (fun key => (key.relink link).display) path index items).filterMap
        (relinkPlace link) := by
  cases items with
  | nil => simp only [relinkItems, placesOfItems, List.filterMap_nil]
  | cons item rest =>
      simp only [relinkItems, placesOfItems, List.filterMap_append, places_relink _ item,
        placesOfItems_relink path (index + 1) rest]

theorem placesOfEntries_relink (path : String) (index : Nat)
    (entries : List (Value ρ × Value ρ)) :
    placesOfEntries display path index (relinkEntries link entries) =
      (placesOfEntries (fun key => (key.relink link).display) path index entries).filterMap
        (relinkPlace link) := by
  cases entries with
  | nil => simp only [relinkEntries, placesOfEntries, List.filterMap_nil]
  | cons entry rest =>
      obtain ⟨key, value⟩ := entry
      simp only [relinkEntries, placesOfEntries, List.filterMap_append, places_relink _ key,
        places_relink _ value, placesOfEntries_relink path (index + 1) rest]

end

end Relinked

end Value

namespace Schema

/-- Whether a declared type neither is a set nor contains one. -/
def TypeExpr.isSetFree : TypeExpr → Bool
  | named _ => true
  | set _ => false
  | list item | array item => item.isSetFree
  | map key value => key.isSetFree && value.isSetFree

/-- Whether nothing of the type is held in a set. -/
def Classified.isSetFree : Classified → Bool
  | collection kind item => kind != .set && item.isSetFree
  | mapping _ item => item.isSetFree
  | _ => true

theorem TypeTable.isSetFree_classify {types : TypeTable} {type : TypeExpr}
    (free : type.isSetFree) : (types.classify type).isSetFree := by
  induction type with
  | named name =>
      unfold classify classifyName
      split
      · rfl
      · split
        · rfl
        · rfl
        · rfl
        · split <;> rfl
  | set => cases free
  | list item induction | array item induction =>
      simpa [classify, Classified.isSetFree] using induction free
  | map key value _ induction =>
      rw [TypeExpr.isSetFree, Bool.and_eq_true] at free
      exact induction free.2

theorem Classified.isSet_eq_false {type : Classified} (free : type.isSetFree) :
    type.isSet = false := by
  unfold isSet
  split
  · simp [isSetFree] at free
  · rfl

theorem Classified.isSetFree_item {type : Classified} (free : type.isSetFree) :
    type.item.isSetFree := by
  cases type with
  | collection kind item =>
      rw [isSetFree, Bool.and_eq_true] at free
      exact free.2
  | mapping key item => exact free
  | value | reference | custom | ignored | unknown => rfl

end Schema

namespace Capture

/-- The printed form of a key of a live map, once it is captured. -/
def Walk.print (types : TypeTable) (heap : Heap) (walk : Walk) (key : Live) : String :=
  (key.relink (walk.nameOf types heap)).display

/-- Names that a walk gives on the way are those of places below an owner, and where sets are out
of question, the places are among the given ones. -/
def NamesBelow (owner : GlobalId) (before after : Walk) (setFree : Prop)
    (places : List (String × Slot)) : Prop :=
  ∀ entry ∈ after.names, entry ∈ before.names ∨
    ∃ place, entry.2 = owner.child place ∧ (setFree → (place, entry.1) ∈ places)

section Names

variable {types : TypeTable} {heap : Heap} {owner : GlobalId} {before between after last : Walk}
  {free more : Prop} {first second : List (String × Slot)}

theorem NamesBelow.refl (owner : GlobalId) (walk : Walk) (free : Prop) :
    NamesBelow owner walk walk free [] :=
  fun _ member => .inl member

theorem NamesBelow.trans (names : NamesBelow owner before between free first)
    (later : NamesBelow owner between after free second) :
    NamesBelow owner before after free (first ++ second) := by
  intro entry member
  rcases later entry member with older | ⟨place, below, lies⟩
  · refine (names entry older).imp_right fun ⟨place, below, lies⟩ => ?_
    exact ⟨place, below, fun free => List.mem_append_left _ (lies free)⟩
  · exact .inr ⟨place, below, fun free => List.mem_append_right _ (lies free)⟩

theorem NamesBelow.mono (names : NamesBelow owner before after free first)
    (fewer : more → free) (among : more → first ⊆ second) :
    NamesBelow owner before after more second := by
  intro entry member
  refine (names entry member).imp_right fun ⟨place, below, lies⟩ => ?_
  exact ⟨place, below, fun free => among free (lies (fewer free))⟩

/-- A value object that has no name gets that of the place where it is referred to. -/
theorem captureRef_names {path : String} {slot : Slot} {walk : Walk} {value : Captured}
    (captured : captureRef types heap owner path slot walk = .ok (value, after)) :
    NamesBelow owner walk after free [(path, slot)] := by
  obtain ⟨referent, -, captured⟩ := bind_eq_ok_iff.mp captured
  cases referent with
  | skipped =>
      cases captured
      exact fun _ member => .inl member
  | entity =>
      cases captured
      exact fun _ member => .inl member
  | valueObject =>
      cases known : walk.name? slot with
      | some id =>
          simp only [known] at captured
          cases captured
          exact fun _ member => .inl member
      | none =>
          simp only [known] at captured
          cases captured
          intro entry member
          rcases List.mem_cons.mp member with rfl | older
          · exact .inr ⟨path, rfl, fun _ => List.mem_singleton_self _⟩
          · exact .inl older

/-- An element that is not in a set lies at its position. -/
theorem itemPath_eq_of_isSetFree {type : Classified} {path place : String} {index : Nat}
    {item : Live} (free : type.isSetFree)
    (placed : itemPath types heap type path index item = .ok place) :
    path ++ "/" ++ toString index = place := by
  rw [itemPath, Classified.isSet_eq_false free] at placed
  exact Except.ok.inj placed

mutual

/-- Capturing a value names value objects by the places where it refers to them. -/
theorem captureValue_names {type : Classified} {path : String} {walk after : Walk} (live : Live)
    {value : Captured} (proper : walk.Proper)
    (captured : captureValue types heap owner type path live walk = .ok (value, after))
    (earlier : after.names <:+ last.names) (last_proper : last.Proper) :
    NamesBelow owner walk after type.isSetFree (live.places (last.print types heap) path) := by
  cases live with
  | null | scalar =>
      rw [captureValue] at captured
      cases captured
      rw [Value.places]
      exact .refl _ _ _
  | ref slot =>
      rw [captureValue] at captured
      rw [Value.places]
      exact captureRef_names captured
  | seq items =>
      rw [captureValue] at captured
      obtain ⟨⟨values, reached⟩, items_captured, captured⟩ := bind_eq_ok_iff.mp captured
      cases captured
      rw [Value.places]
      exact captureItems_names items proper items_captured earlier last_proper
  | map entries =>
      rw [captureValue] at captured
      obtain ⟨⟨values, reached⟩, entries_captured, captured⟩ := bind_eq_ok_iff.mp captured
      cases captured
      rw [Value.places]
      exact captureEntries_names entries proper entries_captured earlier last_proper

theorem captureItems_names {type : Classified} {path : String} {index : Nat} {walk after : Walk}
    (items : List Live) {values : List Captured} (proper : walk.Proper)
    (captured : captureItems types heap owner type path index items walk = .ok (values, after))
    (earlier : after.names <:+ last.names) (last_proper : last.Proper) :
    NamesBelow owner walk after type.isSetFree
      (Value.placesOfItems (last.print types heap) path index items) := by
  cases items with
  | nil =>
      rw [captureItems] at captured
      cases captured
      rw [Value.placesOfItems]
      exact .refl _ _ _
  | cons item rest =>
      rw [captureItems] at captured
      obtain ⟨place, placed, captured⟩ := bind_eq_ok_iff.mp captured
      obtain ⟨⟨value, between⟩, item_captured, captured⟩ := bind_eq_ok_iff.mp captured
      obtain ⟨⟨others, reached⟩, rest_captured, captured⟩ := bind_eq_ok_iff.mp captured
      cases captured
      obtain ⟨first, -⟩ := captureValue_settles item proper item_captured
      obtain ⟨second, -⟩ := captureItems_settles rest first.proper rest_captured
      have item_names := captureValue_names item proper item_captured
        (second.names.trans earlier) last_proper
      have rest_names := captureItems_names rest first.proper rest_captured earlier last_proper
      rw [Value.placesOfItems]
      refine .trans (item_names.mono Classified.isSetFree_item fun free => ?_) rest_names
      rw [itemPath_eq_of_isSetFree free placed]
      exact List.Subset.refl _

theorem captureEntries_names {type : Classified} {path : String} {index : Nat}
    {walk after : Walk} (entries : List (Live × Live)) {values : List (Captured × Captured)}
    (proper : walk.Proper)
    (captured : captureEntries types heap owner type path index entries walk =
      .ok (values, after)) (earlier : after.names <:+ last.names) (last_proper : last.Proper) :
    NamesBelow owner walk after type.isSetFree
      (Value.placesOfEntries (last.print types heap) path index entries) := by
  cases entries with
  | nil =>
      rw [captureEntries] at captured
      cases captured
      rw [Value.placesOfEntries]
      exact .refl _ _ _
  | cons entry rest =>
      obtain ⟨key, value⟩ := entry
      rw [captureEntries] at captured
      obtain ⟨⟨newKey, walk₁⟩, key_captured, captured⟩ := bind_eq_ok_iff.mp captured
      obtain ⟨⟨newValue, walk₂⟩, value_captured, captured⟩ := bind_eq_ok_iff.mp captured
      obtain ⟨⟨others, walk₃⟩, rest_captured, captured⟩ := bind_eq_ok_iff.mp captured
      cases captured
      obtain ⟨keys, rfl⟩ := captureValue_settles key proper key_captured
      obtain ⟨values, -⟩ := captureValue_settles value keys.proper value_captured
      obtain ⟨others, -⟩ := captureEntries_settles rest values.proper rest_captured
      have before_value := (values.names.trans others.names).trans earlier
      have key_names := captureValue_names key proper key_captured before_value last_proper
      have value_names := captureValue_names value keys.proper value_captured
        (others.names.trans earlier) last_proper
      have rest_names := captureEntries_names rest values.proper rest_captured earlier last_proper
      have printed : (key.relink (walk₁.nameOf types heap)).display = last.print types heap key :=
        congrArg Value.display
          (keys.relink_eq before_value last_proper (List.Subset.refl _))
      rw [printed] at value_names
      rw [Value.placesOfEntries]
      refine .trans (.trans (key_names.mono (fun _ => rfl) fun _ => List.Subset.refl _) ?_)
        rest_names
      exact value_names.mono Classified.isSetFree_item fun _ => List.Subset.refl _

end

/-- What the kept properties of an instance refer to, with the places. -/
def placesOf (types : TypeTable) (heap : Heap) (walk : Walk) (object : Instance)
    (properties : List Property) : List (String × Slot) :=
  (kept types object properties).flatMap fun entry =>
    entry.2.places (walk.print types heap) entry.1

/-- Capturing properties names value objects by the places where they refer to them. -/
theorem captureProperties_names {object : Instance} {properties : List Property}
    {state final : State} {walk : Walk} (proper : walk.Proper)
    (captured : captureProperties types heap owner object properties state walk =
      .ok (final, after)) (earlier : after.names <:+ last.names) (last_proper : last.Proper) :
    NamesBelow owner walk after (∀ property ∈ properties, property.type.isSetFree)
      (placesOf types heap last object properties) := by
  induction properties generalizing state walk with
  | nil =>
      rw [captureProperties] at captured
      cases captured
      exact .refl _ _ _
  | cons property rest induction =>
      rw [captureProperties] at captured
      simp only at captured
      split at captured
      next value considered set =>
        obtain ⟨⟨stored, between⟩, value_captured, captured⟩ := bind_eq_ok_iff.mp captured
        obtain ⟨first, -⟩ := captureValue_settles value proper value_captured
        obtain ⟨second, -⟩ := captureProperties_settles first.proper captured
        have value_names := captureValue_names value proper value_captured
          (second.names.trans earlier) last_proper
        rw [placesOf, kept_cons_of_set considered set, List.flatMap_cons]
        refine .trans (value_names.mono (fun free => ?_) fun _ => List.Subset.refl _)
          ((induction first.proper captured).mono (fun free => ?_) fun _ => List.Subset.refl _)
        · exact TypeTable.isSetFree_classify (free property List.mem_cons_self)
        · exact fun other member => free other (List.mem_cons_of_mem _ member)
      next unless_kept =>
        rw [placesOf, kept_cons_of_unset unless_kept]
        exact (induction proper captured).mono
          (fun free other member => free other (List.mem_cons_of_mem _ member))
          fun _ => List.Subset.refl _

end Names

end Capture
end AuditTrail
