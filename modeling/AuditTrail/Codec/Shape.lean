import AuditTrail.Decimal.Layout
import AuditTrail.Decimal.Reading
import AuditTrail.Json

/-!
# Shapes of written values

Values are written in a few shapes.  A record is an object with a field for each part; where it is
read it may also be an array of the parts.  One of several variants is an object with the name of
the variant as its only field; a variant without content is just its name.

Readers enter one level of nesting for every object or array that they look into, and `room` counts
the levels that may still be entered.  What readers skip may be nested as deeply as it likes.
-/

namespace AuditTrail.Codec

/-- Levels of nesting that a document may be read to. -/
def nestingLimit : Nat := 127

/-- The parts of a record in the order of `names`, and the room inside it.  In an object unknown
names are skipped, known ones occur at most once, and a missing part among `nullable` reads as
null.  In an array parts can be missing only at the end. -/
def record? (room : Nat) (names nullable : List String) (json : Json) :
    Option (Nat × List (Option Json)) :=
  match room, json with
  | room + 1, .obj fields =>
    if names.any fun name => 1 < fields.countP fun field => field.1 == name then none
    else
      some (room, names.map fun name =>
        match fields.find? fun field => field.1 == name with
        | some (_, value) => some value
        | none => if nullable.contains name then some .null else none)
  | room + 1, .arr items =>
    if items.length ≤ names.length then
      some (room, items.map some ++ List.replicate (names.length - items.length) none)
    else none
  | _, _ => none

/-- The name and the content of a variant, and the room for the content. -/
def variant? (room : Nat) (json : Json) : Option (Nat × String × Json) :=
  match room, json with
  | room + 1, .obj [(name, content)] => some (room, name, content)
  | _, _ => none

/-- The name of a variant without content. -/
def plainVariant? (room : Nat) (json : Json) : Option String :=
  match json with
  | .str name => some name
  | _ =>
    match variant? room json with
    | some (_, name, .null) => some name
    | _ => none

/-- The elements of an array. -/
def list? {α : Type} (read : Nat → Json → Option α) (room : Nat) (json : Json) :
    Option (List α) :=
  match room, json with
  | room + 1, .arr items => items.mapM (read room)
  | _, _ => none

/-- The two elements of an array. -/
def pair? {α β : Type} (first : Nat → Json → Option α) (second : Nat → Json → Option β)
    (room : Nat) (json : Json) : Option (α × β) :=
  match room, json with
  | room + 1, .arr [a, b] => do
    let a ← first room a
    let b ← second room b
    some (a, b)
  | _, _ => none

/-- A value that may be null. -/
def optional? {α : Type} (read : Nat → Json → Option α) (room : Nat) (json : Json) :
    Option (Option α) :=
  match json with
  | .null => some none
  | json => (read room json).map some

/-- A text. -/
def text? : Json → Option String
  | .str text => some text
  | _ => none

/-- A truth value. -/
def bool? : Json → Option Bool
  | .bool value => some value
  | _ => none

/-- An integer: a number without point and exponent.  Negative zero is none. -/
def integer? : Json → Option Int
  | .num numeral =>
    if !numeral.isWhole || (numeral.negative && numeral.whole == 0) then none
    else some (if numeral.negative then -(numeral.whole : Int) else numeral.whole)
  | _ => none

/-- An integer of a signed 64-bit word. -/
def signed? (json : Json) : Option Int :=
  (integer? json).filter fun n => decide (-Nat.pow 2 63 ≤ n ∧ n < Nat.pow 2 63)

/-- A natural of the given number of bits. -/
def natural? (bits : Nat) (json : Json) : Option Nat :=
  match integer? json with
  | some (.ofNat n) => if n < Nat.pow 2 bits then some n else none
  | _ => none

/-- A double: a number, or the name of a word that is not finite. -/
def float? : Json → Option Binary64
  | .num numeral => numeral.scaled?
  | .str text =>
    if text = "NaN" then some (.nan false)
    else if text = "inf" then some (.infinity false)
    else if text = "-inf" then some (.infinity true)
    else none
  | _ => none

/-- Doubles are written out from `10 ^ -5` up to below `10 ^ 16`, whole ones with a zero behind the
point; all others have an exponent with its sign. -/
def documentFloat : Decimal.Layout where
  tie := .even
  positional := some (-5, 15)
  pointZero := true
  plus := true

/-- The written form of a double. -/
def float (word : Binary64) : Json :=
  if word.isFinite then .num (documentFloat.numeral word) else .str (documentFloat.text word)

/-- The written form of a variant with content. -/
def variant (name : String) (content : Json) : Json := .obj [(name, content)]

/-- The written form of a list. -/
def list {α : Type} (write : α → Json) (items : List α) : Json := .arr (items.map write)

/-- The written form of a pair. -/
def pair {α β : Type} (first : α → Json) (second : β → Json) (items : α × β) : Json :=
  .arr [first items.1, second items.2]

/-- The written form of a value that may be missing. -/
def optional {α : Type} (write : α → Json) : Option α → Json
  | none => .null
  | some value => write value

end AuditTrail.Codec
