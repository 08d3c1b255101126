import AuditTrail.GlobalId

/-!
# Property values

One type of values serves both sides of the library.  Live values refer to slots of a heap,
captured values to the global ids of nodes; apart from what a reference is, they are the same.

Lists, sets and arrays share the sequence shape, and the declared type of the property decides how
two of them are compared.  The order of values is lexicographic below the order of shapes.
-/

namespace AuditTrail

/-- A property value whose references are of type `ρ`. -/
inductive Value (ρ : Type) where
  /-- No value. -/
  | null
  /-- A leaf. -/
  | scalar (leaf : Scalar)
  /-- A reference. -/
  | ref (target : ρ)
  /-- Elements in order. -/
  | seq (items : List (Value ρ))
  /-- Keys with their values, in order. -/
  | map (entries : List (Value ρ × Value ρ))
  deriving Inhabited

/-- Position of an instance in a heap. -/
abbrev Slot := Nat

/-- A value of a live object. -/
abbrev Live := Value Slot

/-- A value of a captured node. -/
abbrev Captured := Value GlobalId

namespace Value

variable {ρ : Type}

/-- Whether the value is null. -/
def isNull : Value ρ → Bool
  | null => true
  | _ => false

/-- Whether the value is a reference. -/
def isRef : Value ρ → Bool
  | ref _ => true
  | _ => false

/-- What the value refers to, if it is a reference. -/
def target? : Value ρ → Option ρ
  | ref target => some target
  | _ => none

/-- The elements of a sequence; null reads as an empty one. -/
def elements? : Value ρ → Option (List (Value ρ))
  | seq items => some items
  | null => some []
  | _ => none

/-- The entries of a map; null reads as an empty one. -/
def entries? : Value ρ → Option (List (Value ρ × Value ρ))
  | map entries => some entries
  | null => some []
  | _ => none

mutual

/-- Everything the value refers to, from left to right, keys before their values. -/
def references : Value ρ → List ρ
  | null => []
  | scalar _ => []
  | ref target => [target]
  | seq items => referencesOfItems items
  | map entries => referencesOfEntries entries

/-- The references of the elements of a sequence. -/
def referencesOfItems : List (Value ρ) → List ρ
  | [] => []
  | item :: rest => item.references ++ referencesOfItems rest

/-- The references of the entries of a map. -/
def referencesOfEntries : List (Value ρ × Value ρ) → List ρ
  | [] => []
  | (key, value) :: rest => key.references ++ value.references ++ referencesOfEntries rest

end

/-- Place of a value's shape among the shapes. -/
def shapeRank : Value ρ → Nat
  | null => 0
  | scalar _ => 1
  | ref _ => 2
  | seq _ => 3
  | map _ => 4

section Comparison

variable [Ord ρ]

mutual

/-- Order of values: by shape, then lexicographically. -/
def order : Value ρ → Value ρ → Ordering
  | scalar a, scalar b => compare a b
  | ref a, ref b => compare a b
  | seq a, seq b => orderItems a b
  | map a, map b => orderEntries a b
  | a, b => compare a.shapeRank b.shapeRank

/-- Lexicographic order of elements. -/
def orderItems : List (Value ρ) → List (Value ρ) → Ordering
  | [], [] => .eq
  | [], _ :: _ => .lt
  | _ :: _, [] => .gt
  | a :: as, b :: bs => (order a b).then (orderItems as bs)

/-- Lexicographic order of entries, a key before its value. -/
def orderEntries : List (Value ρ × Value ρ) → List (Value ρ × Value ρ) → Ordering
  | [], [] => .eq
  | [], _ :: _ => .lt
  | _ :: _, [] => .gt
  | (k, v) :: as, (k', v') :: bs =>
    (order k k').then ((order v v').then (orderEntries as bs))

end

instance : Ord (Value ρ) := ⟨order⟩

end Comparison

section Equality

variable [BEq ρ]

mutual

/-- Equality of values: the same shape, with equal leaves and references throughout. -/
def same : Value ρ → Value ρ → Bool
  | null, null => true
  | scalar a, scalar b => a == b
  | ref a, ref b => a == b
  | seq a, seq b => sameItems a b
  | map a, map b => sameEntries a b
  | _, _ => false

/-- Equality of elements one by one. -/
def sameItems : List (Value ρ) → List (Value ρ) → Bool
  | [], [] => true
  | a :: as, b :: bs => same a b && sameItems as bs
  | _, _ => false

/-- Equality of entries one by one. -/
def sameEntries : List (Value ρ × Value ρ) → List (Value ρ × Value ρ) → Bool
  | [], [] => true
  | (k, v) :: as, (k', v') :: bs => same k k' && same v v' && sameEntries as bs
  | _, _ => false

end

instance : BEq (Value ρ) := ⟨same⟩

end Equality

mutual

/-- The printed form of a captured value. -/
def display : Captured → String
  | null => "null"
  | scalar leaf => leaf.display
  | ref target => target.display
  | seq items => "[" ++ displayItems items ++ "]"
  | map entries => "\x7b" ++ displayEntries entries ++ "\x7d"

/-- The printed elements of a sequence, separated by commas. -/
def displayItems : List Captured → String
  | [] => ""
  | [item] => item.display
  | item :: rest => item.display ++ ", " ++ displayItems rest

/-- The printed entries of a map, separated by commas. -/
def displayEntries : List (Captured × Captured) → String
  | [] => ""
  | [(key, value)] => key.display ++ ": " ++ value.display
  | (key, value) :: rest => key.display ++ ": " ++ value.display ++ ", " ++ displayEntries rest

end

end Value
end AuditTrail
