import AuditTrail.Proofs.Value.Content

/-!
# What content texts spell

A content text is written from a tree.  Where the names of types and properties and the printed ids
cannot be taken for anything else, the text tells the tree: how it begins says what kind of tree it
is, and every part of it tells where it ends.
-/

namespace AuditTrail.Capture

/-- What a content text says of a value. -/
inductive Spelling where
  /-- Null, or a reference that is left out. -/
  | null
  /-- A scalar. -/
  | leaf (scalar : Scalar)
  /-- An entity, by its id. -/
  | entity (id : GlobalId)
  /-- A value object, by its type and the properties that are set. -/
  | object (typeName : String) (settings : List (String × Spelling))
  /-- Elements in order. -/
  | seq (items : List Spelling)
  /-- Keys with their values, in order. -/
  | map (entries : List (Spelling × Spelling))

namespace Spelling

mutual

/-- The text of a tree. -/
def write : Spelling → List Char
  | null => "null".toList
  | leaf scalar => scalar.content.toList
  | entity id => '@' :: id.display.toList
  | object typeName settings => typeName.toList ++ '(' :: (writeSettings settings ++ [')'])
  | seq items => '[' :: (writeItems items ++ [']'])
  | map entries => '\x7b' :: (writeEntries entries ++ ['\x7d'])

/-- The text of elements, a comma after each. -/
def writeItems : List Spelling → List Char
  | [] => []
  | item :: rest => item.write ++ ',' :: writeItems rest

/-- The text of entries, a comma after each. -/
def writeEntries : List (Spelling × Spelling) → List Char
  | [] => []
  | (key, value) :: rest => key.write ++ ':' :: (value.write ++ ',' :: writeEntries rest)

/-- The text of settings, a semicolon after each. -/
def writeSettings : List (String × Spelling) → List Char
  | [] => []
  | (name, value) :: rest => name.toList ++ '=' :: (value.write ++ ';' :: writeSettings rest)

end

end Spelling

section Marks

/-- The marks that stand behind the parts of a tree. -/
def stops : List Char := [',', ':', ';']

/-- What can stand behind the text of a tree: nothing, or a mark that ends it. -/
def Ends : List Char → Prop
  | [] => True
  | c :: _ => c ∈ stops

/-- How the texts begin that are not those of scalars or value objects, and how lists end. -/
def openings : List (List Char) :=
  [['@'], ['['], ['\x7b'], [']'], ['\x7d']] ++ stops.map fun stop => "null".toList ++ [stop]

/-- A type name that is not taken for anything else. -/
def LegibleType (name : String) : Prop :=
  '(' ∉ name.toList ∧ ∀ opening ∈ openings, ¬ opening <+: name.toList
deriving Decidable

/-- A property name that is not taken for anything else. -/
def LegibleProperty (name : String) : Prop :=
  '=' ∉ name.toList ∧ ')' ∉ name.toList ∧ '"' ∉ name.toList
deriving Decidable

/-- Two ids that are not taken for each other, whatever is printed behind them. -/
def IdsApart (id other : GlobalId) : Prop :=
  (id.display = other.display → id = other) ∧
    ∀ start ∈ stops.map fun stop => id.display.toList ++ [stop],
      ¬ start <+: other.display.toList
deriving Decidable

variable {id other : GlobalId} {name : String} {inner rest rest' : List Char}

/-- In front of a mark no id is printed that another one begins with. -/
theorem IdsApart.eq_nil (apart : IdsApart id other) {between : List Char}
    (ends : Ends (between ++ rest))
    (longer : other.display.toList = id.display.toList ++ between) : between = [] := by
  cases between with
  | nil => rfl
  | cons c between =>
      refine absurd ⟨between, ?_⟩ (apart.2 _ (List.mem_map_of_mem ends))
      rw [longer, List.append_assoc, List.singleton_append]

/-- Printed ids tell the ids in front of a mark. -/
theorem IdsApart.append_inj (apart : IdsApart id other) (also_apart : IdsApart other id)
    (ends : Ends rest) (other_ends : Ends rest')
    (same : id.display.toList ++ rest = other.display.toList ++ rest') :
    id = other ∧ rest = rest' := by
  have equal (printed : id.display.toList = other.display.toList) : id = other :=
    apart.1 (String.toList_inj.mp printed)
  rcases List.append_eq_append_iff.mp same with ⟨between, longer, rfl⟩ | ⟨between, longer, rfl⟩
  · obtain rfl := apart.eq_nil ends longer
    rw [List.append_nil] at longer
    exact ⟨equal longer.symm, rfl⟩
  · obtain rfl := also_apart.eq_nil other_ends longer
    rw [List.append_nil] at longer
    exact ⟨equal longer, rfl⟩

theorem legibleType_kind (leaf : Scalar) : LegibleType leaf.kind := by
  have kinds : ∀ kind ∈ ["Bool", "Int", "Float", "Text"], LegibleType kind := by decide
  exact kinds _ (by cases leaf <;> simp [Scalar.kind])

/-- No opening contains the bracket behind a type name. -/
theorem bracket_notMem_openings : ∀ opening ∈ openings, '(' ∉ opening := by decide

/-- A legible type name in front of its bracket begins like nothing else. -/
theorem LegibleType.not_isPrefix (legible : LegibleType name) {opening : List Char}
    (known : opening ∈ openings) : ¬ opening <+: name.toList ++ '(' :: inner := by
  rintro ⟨tail, begins⟩
  rcases List.append_eq_append_iff.mp begins with ⟨between, longer, -⟩ | ⟨between, longer, behind⟩
  · exact legible.2 opening known ⟨between, longer.symm⟩
  · cases between with
    | nil => exact legible.2 opening known (by rw [longer, List.append_nil])
    | cons c between =>
        obtain ⟨rfl, -⟩ := List.cons.inj behind
        exact bracket_notMem_openings opening known
          (longer ▸ List.mem_append_right _ List.mem_cons_self)

/-- What a text begins with. -/
inductive Opening where
  /-- The word for null. -/
  | null
  /-- A name in front of a bracket. -/
  | call
  /-- The mark of an entity. -/
  | entity
  /-- The bracket of a sequence. -/
  | seq
  /-- The brace of a map. -/
  | map
  /-- The end of a sequence or a map. -/
  | close
  deriving DecidableEq

instance : DecidablePred Ends
  | [] => isTrue trivial
  | c :: _ => inferInstanceAs (Decidable (c ∈ stops))

/-- How a text begins. -/
def opening : List Char → Opening
  | '@' :: _ => .entity
  | '[' :: _ => .seq
  | '\x7b' :: _ => .map
  | ']' :: _ => .close
  | '\x7d' :: _ => .close
  | 'n' :: 'u' :: 'l' :: 'l' :: rest => if Ends rest then .null else .call
  | _ => .call

theorem LegibleType.opening (legible : LegibleType name) :
    opening (name.toList ++ '(' :: inner) = .call := by
  have not_begins (start : List Char) (known : start ∈ openings) {tail : List Char}
      (begins : name.toList ++ '(' :: inner = start ++ tail) : False :=
    legible.not_isPrefix known ⟨tail, begins.symm⟩
  unfold Capture.opening
  split
  next tail begins => exact (not_begins ['@'] (by decide) begins).elim
  next tail begins => exact (not_begins ['['] (by decide) begins).elim
  next tail begins => exact (not_begins ['\x7b'] (by decide) begins).elim
  next tail begins => exact (not_begins [']'] (by decide) begins).elim
  next tail begins => exact (not_begins ['\x7d'] (by decide) begins).elim
  next tail begins =>
    refine if_neg fun ends => ?_
    cases tail with
    | nil =>
        have bracket : '(' ∈ name.toList ++ '(' :: inner :=
          List.mem_append_right _ List.mem_cons_self
        rw [begins] at bracket
        exact absurd bracket (by decide)
    | cons c tail =>
        have known : "null".toList ++ [c] ∈ openings :=
          List.mem_append_right _ (List.mem_map_of_mem ends)
        exact not_begins _ known begins
  next => rfl

end Marks

namespace Spelling

variable {ids : GlobalId → Prop} {tree other : Spelling} {rest rest' : List Char}

/-- A tree as it is written when names are legible: of the words that are not numbers only one
occurs, and all ids are among the given ones. -/
inductive Legible (ids : GlobalId → Prop) : Spelling → Prop
  | null : Legible ids null
  | leaf {scalar : Scalar} (canonical : scalar.canonical = scalar) : Legible ids (leaf scalar)
  | entity {id : GlobalId} (known : ids id) : Legible ids (entity id)
  | object {typeName : String} {settings : List (String × Spelling)}
      (type : LegibleType typeName) (names : ∀ setting ∈ settings, LegibleProperty setting.1)
      (values : ∀ setting ∈ settings, Legible ids setting.2) :
      Legible ids (object typeName settings)
  | seq {items : List Spelling} (items_legible : ∀ item ∈ items, Legible ids item) :
      Legible ids (seq items)
  | map {entries : List (Spelling × Spelling)} (keys : ∀ entry ∈ entries, Legible ids entry.1)
      (values : ∀ entry ∈ entries, Legible ids entry.2) : Legible ids (map entries)

/-- How the text of a tree begins. -/
def opening : Spelling → Opening
  | null => .null
  | leaf _ | object _ _ => .call
  | entity _ => .entity
  | seq _ => .seq
  | map _ => .map

theorem opening_write (legible : tree.Legible ids) (ends : Ends rest) :
    Capture.opening (tree.write ++ rest) = tree.opening := by
  cases legible with
  | null => exact if_pos ends
  | leaf canonical =>
      rw [write, Scalar.toList_content]
      exact (legibleType_kind _).opening
  | object type names values =>
      rw [write, List.append_assoc, List.cons_append]
      exact type.opening
  | entity | seq | map => rfl

/-- Legible trees do not begin like the end of a list. -/
theorem write_append_ne (legible : tree.Legible ids) (ends : Ends rest) {c : Char}
    (closing : c = ']' ∨ c = '\x7d') : tree.write ++ rest ≠ c :: rest' := by
  intro same
  have begins := opening_write legible ends
  rw [same] at begins
  rcases closing with rfl | rfl <;> cases tree <;> cases begins

/-- A tree whose text tells it, whatever stands behind it. -/
def Told (ids : GlobalId → Prop) (tree : Spelling) : Prop :=
  ∀ {other rest rest'}, other.Legible ids → Ends rest → Ends rest' →
    tree.write ++ rest = other.write ++ rest' → tree = other ∧ rest = rest'

variable {items others : List Spelling} {entries other_entries : List (Spelling × Spelling)}
  {settings other_settings : List (String × Spelling)}

theorem ends_comma : Ends (',' :: rest) := show ',' ∈ stops by decide

theorem ends_colon : Ends (':' :: rest) := show ':' ∈ stops by decide

theorem ends_semicolon : Ends (';' :: rest) := show ';' ∈ stops by decide

theorem writeItems_eq (items : List Spelling) :
    writeItems items = items.flatMap fun item => item.write ++ [','] := by
  induction items with
  | nil => rfl
  | cons item items induction => simp [writeItems, induction]

theorem writeEntries_eq (entries : List (Spelling × Spelling)) :
    writeEntries entries =
      entries.flatMap fun entry => entry.1.write ++ ':' :: (entry.2.write ++ [',']) := by
  induction entries with
  | nil => rfl
  | cons entry entries induction => simp [writeEntries, induction]

theorem writeSettings_eq (settings : List (String × Spelling)) :
    writeSettings settings =
      settings.flatMap fun setting => setting.1.toList ++ '=' :: (setting.2.write ++ [';']) := by
  induction settings with
  | nil => rfl
  | cons setting settings induction => simp [writeSettings, induction]

/-- Elements are told apart up to the bracket behind them. -/
theorem writeItems_append_inj (legible : ∀ item ∈ items, item.Legible ids)
    (told : ∀ item ∈ items, Told ids item) (other_legible : ∀ item ∈ others, item.Legible ids)
    (same : writeItems items ++ ']' :: rest = writeItems others ++ ']' :: rest') :
    items = others ∧ rest = rest' := by
  have begins (item : Spelling) (legible : item.Legible ids) (behind behind' : List Char) :
      (item.write ++ [',']) ++ behind ≠ ']' :: behind' := by
    rw [List.append_assoc]
    exact write_append_ne legible ends_comma (.inl rfl)
  rw [writeItems_eq, writeItems_eq] at same
  refine Text.flatMap_append_inj (fun item member other other_member behind behind' same => ?_)
    (fun item member => begins item (legible item member))
    (fun other member => begins other (other_legible other member)) same
  rw [List.append_assoc, List.append_assoc] at same
  obtain ⟨rfl, rests⟩ := told item member (other_legible other other_member) ends_comma ends_comma
    same
  exact ⟨rfl, (List.cons.inj rests).2⟩

/-- Entries are told apart up to the brace behind them. -/
theorem writeEntries_append_inj (keys : ∀ entry ∈ entries, entry.1.Legible ids)
    (told : ∀ entry ∈ entries, Told ids entry.1 ∧ Told ids entry.2)
    (other_keys : ∀ entry ∈ other_entries, entry.1.Legible ids)
    (other_values : ∀ entry ∈ other_entries, entry.2.Legible ids)
    (same : writeEntries entries ++ '\x7d' :: rest =
      writeEntries other_entries ++ '\x7d' :: rest') :
    entries = other_entries ∧ rest = rest' := by
  have begins (entry : Spelling × Spelling) (key : entry.1.Legible ids)
      (behind behind' : List Char) :
      (entry.1.write ++ ':' :: (entry.2.write ++ [','])) ++ behind ≠ '\x7d' :: behind' := by
    rw [List.append_assoc]
    exact write_append_ne key ends_colon (.inr rfl)
  rw [writeEntries_eq, writeEntries_eq] at same
  refine Text.flatMap_append_inj (fun entry member other other_member behind behind' same => ?_)
    (fun entry member => begins entry (keys entry member))
    (fun other member => begins other (other_keys other member)) same
  simp only [List.append_assoc, List.cons_append] at same
  obtain ⟨key_told, value_told⟩ := told entry member
  obtain ⟨same_key, values⟩ := key_told (other_keys other other_member) ends_colon ends_colon same
  obtain ⟨same_value, rests⟩ := value_told (other_values other other_member) ends_comma ends_comma
    (List.cons.inj values).2
  exact ⟨Prod.ext same_key same_value, (List.cons.inj rests).2⟩

/-- Settings are told apart up to the bracket behind them. -/
theorem writeSettings_append_inj (names : ∀ setting ∈ settings, LegibleProperty setting.1)
    (told : ∀ setting ∈ settings, Told ids setting.2)
    (other_names : ∀ setting ∈ other_settings, LegibleProperty setting.1)
    (other_values : ∀ setting ∈ other_settings, setting.2.Legible ids)
    (same : writeSettings settings ++ ')' :: rest = writeSettings other_settings ++ ')' :: rest') :
    settings = other_settings ∧ rest = rest' := by
  have begins (setting : String × Spelling) (name : LegibleProperty setting.1)
      (behind behind' : List Char) :
      (setting.1.toList ++ '=' :: (setting.2.write ++ [';'])) ++ behind ≠ [] ++ ')' :: behind' := by
    rw [List.append_assoc]
    exact Text.append_stops_ne (by decide) name.2.1 List.not_mem_nil
  rw [writeSettings_eq, writeSettings_eq] at same
  refine Text.flatMap_append_inj (fun setting member other other_member behind behind' same => ?_)
    (fun setting member => begins setting (names setting member))
    (fun other member => begins other (other_names other member)) same
  simp only [List.append_assoc, List.cons_append] at same
  obtain ⟨same_name, values⟩ :=
    Text.append_stop_inj (names setting member).1 (other_names other other_member).1 same
  obtain ⟨same_value, rests⟩ :=
    told setting member (other_values other other_member) ends_semicolon ends_semicolon values
  exact ⟨Prod.ext (String.toList_inj.mp same_name) same_value, (List.cons.inj rests).2⟩

/-- A scalar is not a value object. -/
theorem content_append_ne_write {scalar : Scalar} {typeName : String}
    (type : LegibleType typeName) (names : ∀ setting ∈ settings, LegibleProperty setting.1) :
    scalar.content.toList ++ rest ≠ (object typeName settings).write ++ rest' := by
  rw [Scalar.toList_content, write, List.append_assoc, List.cons_append, List.append_assoc]
  intro same
  obtain ⟨-, same⟩ := Text.append_stop_inj scalar.bracket_notMem_kind type.1 same
  cases settings with
  | nil => exact scalar.shown_append_ne same
  | cons setting settings =>
      rw [writeSettings, List.append_assoc] at same
      obtain ⟨-, bracket, quote⟩ := names setting List.mem_cons_self
      exact Scalar.shown_append_ne_setting bracket quote same

/-- Trees with one text are of one kind, except that scalars are written like value objects. -/
theorem opening_eq (legible : tree.Legible ids) (other_legible : other.Legible ids)
    (ends : Ends rest) (other_ends : Ends rest')
    (same : tree.write ++ rest = other.write ++ rest') : tree.opening = other.opening := by
  rw [← opening_write legible ends, same, opening_write other_legible other_ends]

/-- The text of a legible tree tells the tree. -/
theorem Legible.told (apart : ∀ id, ids id → ∀ other, ids other → IdsApart id other)
    (legible : tree.Legible ids) : Told ids tree := by
  induction legible with
  | null =>
      intro other rest rest' other_legible ends other_ends same
      have openings := opening_eq .null other_legible ends other_ends same
      cases other_legible with
      | null => exact ⟨rfl, List.append_cancel_left same⟩
      | _ => cases openings
  | leaf canonical =>
      intro other rest rest' other_legible ends other_ends same
      have openings := opening_eq (.leaf canonical) other_legible ends other_ends same
      cases other_legible with
      | leaf other_canonical =>
          obtain ⟨scalars, rests⟩ := Scalar.content_append_inj same
          rw [canonical, other_canonical] at scalars
          exact ⟨congrArg Spelling.leaf scalars, rests⟩
      | object type names values => exact absurd same (content_append_ne_write type names)
      | _ => cases openings
  | entity known =>
      intro other rest rest' other_legible ends other_ends same
      have openings := opening_eq (.entity known) other_legible ends other_ends same
      cases other_legible with
      | entity other_known =>
          obtain ⟨rfl, rests⟩ := (apart _ known _ other_known).append_inj
            (apart _ other_known _ known) ends other_ends (List.cons.inj same).2
          exact ⟨rfl, rests⟩
      | _ => cases openings
  | object type names values told =>
      intro other rest rest' other_legible ends other_ends same
      have openings := opening_eq (.object type names values) other_legible ends other_ends same
      cases other_legible with
      | leaf => exact absurd same.symm (content_append_ne_write type names)
      | object other_type other_names other_values =>
          simp only [write, List.append_assoc, List.cons_append, List.nil_append] at same
          obtain ⟨same_type, behind⟩ := Text.append_stop_inj type.1 other_type.1 same
          obtain ⟨rfl, rests⟩ :=
            writeSettings_append_inj names told other_names other_values behind
          exact ⟨by rw [String.toList_inj.mp same_type], rests⟩
      | _ => cases openings
  | seq items_legible told =>
      intro other rest rest' other_legible ends other_ends same
      have openings := opening_eq (.seq items_legible) other_legible ends other_ends same
      cases other_legible with
      | seq other_items =>
          simp only [write, List.append_assoc, List.cons_append, List.nil_append] at same
          obtain ⟨rfl, rests⟩ :=
            writeItems_append_inj items_legible told other_items (List.cons.inj same).2
          exact ⟨rfl, rests⟩
      | _ => cases openings
  | map keys values keys_told values_told =>
      intro other rest rest' other_legible ends other_ends same
      have openings := opening_eq (.map keys values) other_legible ends other_ends same
      cases other_legible with
      | map other_keys other_values =>
          simp only [write, List.append_assoc, List.cons_append, List.nil_append] at same
          obtain ⟨rfl, rests⟩ := writeEntries_append_inj keys
            (fun entry member => ⟨keys_told entry member, values_told entry member⟩) other_keys
            other_values (List.cons.inj same).2
          exact ⟨rfl, rests⟩
      | _ => cases openings

/-- Legible trees are written differently. -/
theorem write_inj (apart : ∀ id, ids id → ∀ other, ids other → IdsApart id other)
    (legible : tree.Legible ids) (other_legible : other.Legible ids)
    (same : tree.write = other.write) : tree = other := by
  have ends : Ends [] := trivial
  exact (legible.told apart other_legible ends ends (congrArg (· ++ []) same)).1

end Spelling

end AuditTrail.Capture
