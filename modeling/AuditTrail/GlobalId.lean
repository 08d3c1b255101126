import AuditTrail.Scalar

/-!
# Global ids

A global id names a node across versions.  Entities are named by their type and an identity value,
value objects by the node that owns them and the path that leads there.

Ids are ordered by their key: the type name of the root owner, then its identity value (none
before any), then the fragments on the way down from the root.  The key determines the id, so the
order is a total order whose equality is equality of ids.
-/

namespace AuditTrail

/-- Identity value of an entity. -/
inductive LocalId where
  /-- An integer identity. -/
  | int (value : Int)
  /-- A text identity. -/
  | text (value : String)
  deriving DecidableEq, Inhabited

namespace LocalId

/-- Whether the identity is a text. -/
def isText : LocalId → Bool
  | int _ => false
  | text _ => true

/-- The integer of an integer identity, zero for a text. -/
def number : LocalId → Int
  | int value => value
  | text _ => 0

/-- The text of a text identity, empty for an integer. -/
def name : LocalId → String
  | int _ => ""
  | text value => value

theorem eq_of_parts {left right : LocalId} (kinds : left.isText = right.isText)
    (numbers : left.number = right.number) (names : left.name = right.name) : left = right := by
  cases left <;> cases right <;> simp_all [isText, number, name]

/-- Order of identities: integers before texts, each by value. -/
def order : LocalId → LocalId → Ordering :=
  compareLex (compareOn isText) (compareLex (compareOn number) (compareOn name))

instance : Ord LocalId := ⟨order⟩

instance : Std.TransOrd LocalId := by
  change Std.TransCmp (compareLex _ _)
  infer_instance

instance : Std.LawfulEqOrd LocalId where
  eq_of_compare equal := by
    obtain ⟨kinds, rest⟩ := Ordering.then_eq_eq.mp equal
    obtain ⟨numbers, names⟩ := Ordering.then_eq_eq.mp rest
    exact eq_of_parts (Std.LawfulEqCmp.eq_of_compare kinds)
      (Std.LawfulEqCmp.eq_of_compare numbers) (Std.LawfulEqCmp.eq_of_compare names)

/-- The identity that a scalar gives; truth values and floats give none. -/
def ofScalar? : Scalar → Option LocalId
  | .int value => some (int value)
  | .text value => some (text value)
  | .bool _ | .float _ => none

/-- The scalar stored in the identity property. -/
def toScalar : LocalId → Scalar
  | int value => .int value
  | text value => .text value

/-- The printed form. -/
def display (id : LocalId) : String := id.toScalar.display

end LocalId

/-- Name of a node across versions. -/
inductive GlobalId where
  /-- An entity, such as `Person/1`. -/
  | entity (typeName : String) (localId : LocalId)
  /-- A value object that is a root of its own, such as `Address/`. -/
  | unbounded (typeName : String)
  /-- A value object reached from another node, such as `Person/1#address`. -/
  | owned (owner : GlobalId) (fragment : String)
  deriving DecidableEq, Inhabited

namespace GlobalId

/-- The id that owns this one at the root; entities and unbounded ids own themselves. -/
def root : GlobalId → GlobalId
  | owned owner _ => owner.root
  | id => id

/-- The fragments from the root down. -/
def path : GlobalId → List String
  | owned owner fragment => owner.path ++ [fragment]
  | _ => []

/-- Type name and identity value at the root. -/
def rootKey : GlobalId → String × Option LocalId
  | entity typeName localId => (typeName, some localId)
  | unbounded typeName => (typeName, none)
  | owned owner _ => owner.rootKey

theorem rootKey_eq_root (id : GlobalId) : id.rootKey = id.root.rootKey := by
  induction id with
  | entity => rfl
  | unbounded => rfl
  | owned owner fragment ih => exact ih

/-- The root key and the path together determine the id. -/
theorem eq_of_keys {left right : GlobalId} (roots : left.rootKey = right.rootKey)
    (paths : left.path = right.path) : left = right := by
  induction left generalizing right with
  | entity typeName localId =>
    cases right with
    | entity => simpa [rootKey] using roots
    | unbounded => simp [rootKey] at roots
    | owned => simp [path] at paths
  | unbounded typeName =>
    cases right with
    | entity => simp [rootKey] at roots
    | unbounded => simpa [rootKey] using roots
    | owned => simp [path] at paths
  | owned owner fragment ih =>
    cases right with
    | entity => simp [path] at paths
    | unbounded => simp [path] at paths
    | owned owner' fragment' =>
      obtain ⟨ownerPaths, fragments⟩ : owner.path = owner'.path ∧ [fragment] = [fragment'] :=
        List.append_inj' paths rfl
      have owners : owner = owner' := ih roots ownerPaths
      rw [owners, List.singleton_inj.mp fragments]

/-- Order of ids: root type name, root identity, then the path from the root down. -/
def order : GlobalId → GlobalId → Ordering :=
  compareLex (compareOn fun id => id.rootKey.1)
    (compareLex (compareOn fun id => id.rootKey.2) (compareOn path))

instance : Ord GlobalId := ⟨order⟩

instance : Std.TransOrd GlobalId := by
  change Std.TransCmp (compareLex _ _)
  infer_instance

instance : Std.LawfulEqOrd GlobalId where
  eq_of_compare equal := by
    obtain ⟨names, rest⟩ := Ordering.then_eq_eq.mp equal
    obtain ⟨identities, paths⟩ := Ordering.then_eq_eq.mp rest
    exact eq_of_keys
      (Prod.ext (Std.LawfulEqCmp.eq_of_compare names) (Std.LawfulEqCmp.eq_of_compare identities))
      (Std.LawfulEqCmp.eq_of_compare paths)

/-- The id of the value object reached through `fragment`.  Paths below an owned id are joined to
its fragment, so the owner stays a root. -/
def child : GlobalId → String → GlobalId
  | owned owner own, fragment => owned owner (own ++ "/" ++ fragment)
  | id, fragment => owned id fragment

/-- Whether the id names a value object. -/
def isValueObject : GlobalId → Bool
  | entity _ _ => false
  | unbounded _ | owned _ _ => true

/-- The type name that the id itself carries. -/
def typeName? : GlobalId → Option String
  | entity typeName _ | unbounded typeName => some typeName
  | owned _ _ => none

/-- The printed form. -/
def display : GlobalId → String
  | entity typeName localId => typeName ++ "/" ++ localId.display
  | unbounded typeName => typeName ++ "/"
  | owned owner fragment => owner.display ++ "#" ++ fragment

end GlobalId
end AuditTrail
