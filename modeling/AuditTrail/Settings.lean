import AuditTrail.Codec.Shape
import AuditTrail.Commit.Numbering
import AuditTrail.Diff.Comparison
import AuditTrail.Schema.Describe

/-!
# Settings

The settings of an audit trail are fixed when it is opened.  Their document may leave out any of
them.
-/

namespace AuditTrail

open Codec

namespace Alignment

/-- The name of an alignment in documents. -/
def name : Alignment → String
  | positional => "simple"
  | shortest => "levenshtein_distance"

/-- The alignment of a name. -/
def ofName? (name : String) : Option Alignment :=
  [positional, shortest].find? fun alignment => alignment.name == name

end Alignment

namespace CommitIdScheme

/-- The name of a scheme in documents. -/
def name : CommitIdScheme → String
  | sequential => "synchronized_sequence"
  | random => "random"

/-- The scheme of a name. -/
def ofName? (name : String) : Option CommitIdScheme :=
  [sequential, random].find? fun scheme => scheme.name == name

end CommitIdScheme

/-- How an audit trail compares graphs and numbers commits. -/
structure Settings where
  /-- How the elements of lists are matched. -/
  alignment : Alignment := .positional
  /-- How commit ids are allocated. -/
  scheme : CommitIdScheme := .sequential
  /-- Whether the properties of a new node are reported as changes from null. -/
  initialChanges : Bool := false
  /-- Whether the properties of a removed node are reported as changes to null. -/
  terminalChanges : Bool := false
  /-- Whether stored diffs are to be logged in their printed form. -/
  prettyPrint : Bool := false
  deriving DecidableEq, Inhabited

namespace Settings

/-- How graphs are compared under the settings. -/
def diffOptions (settings : Settings) : DiffOptions :=
  ⟨settings.alignment, settings.initialChanges, settings.terminalChanges⟩

/-- The written form. -/
def encode (settings : Settings) : Json :=
  .obj [("list_compare_algorithm", .str settings.alignment.name),
    ("commit_id_generator", .str settings.scheme.name),
    ("initial_changes", .bool settings.initialChanges),
    ("terminal_changes", .bool settings.terminalChanges),
    ("pretty_print", .bool settings.prettyPrint)]

/-- The settings that a document stands for. -/
def decode? (room : Nat) (json : Json) : Option Settings := do
  match ← record? room
      ["list_compare_algorithm", "commit_id_generator", "initial_changes", "terminal_changes",
        "pretty_print"] [] json with
  | (room, [alignment, scheme, initialChanges, terminalChanges, prettyPrint]) =>
    some
      { alignment :=
          ← alignment.elim (some .positional) fun json =>
            (plainVariant? room json).bind Alignment.ofName?
        scheme :=
          ← scheme.elim (some .sequential) fun json =>
            (plainVariant? room json).bind CommitIdScheme.ofName?
        initialChanges := ← initialChanges.elim (some false) bool?
        terminalChanges := ← terminalChanges.elim (some false) bool?
        prettyPrint := ← prettyPrint.elim (some false) bool? }
  | _ => none

end Settings

namespace Describe

/-- A list alignment. -/
def alignment : Alignment → String
  | .positional => "Simple"
  | .shortest => "LevenshteinDistance"

/-- A scheme of commit ids. -/
def scheme : CommitIdScheme → String
  | .sequential => "SynchronizedSequence"
  | .random => "Random"

/-- Settings. -/
def settings (settings : Settings) : String :=
  record "CoreConfig"
    [("list_compare_algorithm", alignment settings.alignment),
      ("commit_id_generator", scheme settings.scheme),
      ("initial_changes", bool settings.initialChanges),
      ("terminal_changes", bool settings.terminalChanges),
      ("pretty_print", bool settings.prettyPrint)]
    false

end Describe
end AuditTrail
