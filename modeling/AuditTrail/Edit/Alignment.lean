import AuditTrail.Edit

/-!
# Alignments of sequences

Two ways to find a script between two sequences.  The positional one matches equal positions.  The
shortest one follows the table of edit distances between prefixes, and prefers a match over a
replacement and a replacement over an insertion or a removal.
-/

namespace AuditTrail

/-- How the elements of two lists are matched. -/
inductive Alignment where
  /-- By position. -/
  | positional
  /-- So that the script is as short as possible. -/
  | shortest
  deriving DecidableEq, Inhabited

namespace Alignment

variable (equal : Captured → Captured → Bool)

/-- Match equal positions from `index` on.  What is left over on the right comes in at the end, and
what is left over on the left goes out where the common part ends. -/
def positionalFrom (index : Nat) : List Captured → List Captured → List Edit
  | l :: left, r :: right =>
    if equal l r then positionalFrom (index + 1) left right
    else .replace index l r :: positionalFrom (index + 1) left right
  | [], right => right.mapIdx fun i value => .insert (index + i) value
  | left, [] => left.map fun value => .remove index value

/-- The positional script. -/
def positionalScript (left right : List Captured) : List Edit := positionalFrom equal 0 left right

/-- The distances of one row behind its first one: `l` is the last element of the left prefix,
`diagonal` the distance above the cell before, and `before` the cell before. -/
def fillRow (l : Captured) : Nat → Nat → List Nat → List Captured → List Nat
  | diagonal, before, above :: rest, r :: right =>
    let cost := if equal l r then 0 else 1
    let here := min (min (diagonal + cost) (above + 1)) (before + 1)
    here :: fillRow l above here rest right
  | _, _, _, _ => []

/-- The row below `row`: distances from a left prefix that is one element longer. -/
def nextRow (right : List Captured) (l : Captured) : List Nat → List Nat
  | [] => []
  | diagonal :: rest => (diagonal + 1) :: fillRow equal l diagonal (diagonal + 1) rest right

/-- The rows below `row`, one for each further element of the left sequence. -/
def rowsFrom (right : List Captured) (row : List Nat) : List Captured → List (List Nat)
  | [] => [row]
  | l :: left => row :: rowsFrom right (nextRow equal right l row) left

/-- The distances between all prefixes: row `i`, column `j` belongs to the first `i` elements on
the left and the first `j` on the right. -/
def distances (left right : List Captured) : List (List Nat) :=
  rowsFrom equal right (List.range (right.length + 1)) left

/-- The distance in a cell of the table. -/
def cell (table : List (List Nat)) (row column : Nat) : Nat :=
  (table.getD row []).getD column 0

/-- One step of an alignment. -/
inductive Step where
  /-- Matched elements. -/
  | keep
  /-- Matched positions of different elements. -/
  | replace (old new : Captured)
  /-- An element only on the left. -/
  | remove (old : Captured)
  /-- An element only on the right. -/
  | insert (new : Captured)
  deriving Inhabited

/-- Trace back the cells of one row, from the last column to the first: `l` is the last of the
`above + 1` elements on the left, and `next` traces the row above.  Where both a removal and an
insertion are as short, the smaller element comes first in the trace. -/
def traceRow (table : List (List Nat)) (l : Captured) (above : Nat)
    (next : List Captured → List Step) : List Captured → List Step
  | [] => .remove l :: next []
  | r :: right =>
    let here := cell table (above + 1) (right.length + 1)
    let diagonal := cell table above right.length
    if here == diagonal && equal l r then .keep :: next right
    else if here == diagonal + 1 then .replace l r :: next right
    else
      let canRemove := here == cell table above (right.length + 1) + 1
      let canInsert := here == cell table (above + 1) right.length + 1
      if canRemove && (!canInsert || compare l r == .lt) then .remove l :: next (r :: right)
      else .insert r :: traceRow table l above next right

/-- Trace the table back from the ends of two sequences, given in reverse; the last step comes
first. -/
def trace (table : List (List Nat)) : List Captured → List Captured → List Step
  | [], right => right.map .insert
  | l :: left, right => traceRow equal table l left.length (trace table left) right

/-- The script of an alignment whose first step is at `index`. -/
def scriptOf (index : Nat) : List Step → List Edit
  | [] => []
  | .keep :: rest => scriptOf (index + 1) rest
  | .replace old new :: rest => .replace index old new :: scriptOf (index + 1) rest
  | .remove old :: rest => .remove index old :: scriptOf index rest
  | .insert new :: rest => .insert index new :: scriptOf (index + 1) rest

/-- The shortest script. -/
def shortestScript (left right : List Captured) : List Edit :=
  scriptOf 0 (trace equal (distances equal left right) left.reverse right.reverse).reverse

/-- The script that an alignment finds. -/
def script (alignment : Alignment) (left right : List Captured) : List Edit :=
  match alignment with
  | positional => positionalScript equal left right
  | shortest => shortestScript equal left right

end Alignment
end AuditTrail
