import AuditTrail.Value
import Mathlib

/-!
# Values with other references

A value is carried over to another kind of references by a partial translation of them.  What the
translation says of references that do not occur does not matter.
-/

namespace AuditTrail.Value

variable {ρ τ υ : Type}

mutual

/-- The value with its references translated.  References without a translation become null. -/
def relink (link : ρ → Option τ) : Value ρ → Value τ
  | null => null
  | scalar leaf => scalar leaf
  | ref target => ((link target).map ref).getD null
  | seq items => seq (relinkItems link items)
  | map entries => map (relinkEntries link entries)

/-- Elements with their references translated. -/
def relinkItems (link : ρ → Option τ) : List (Value ρ) → List (Value τ)
  | [] => []
  | item :: rest => item.relink link :: relinkItems link rest

/-- Entries with their references translated. -/
def relinkEntries (link : ρ → Option τ) : List (Value ρ × Value ρ) → List (Value τ × Value τ)
  | [] => []
  | (key, value) :: rest => (key.relink link, value.relink link) :: relinkEntries link rest

end

mutual

theorem relink_congr {link other : ρ → Option τ} (value : Value ρ)
    (same : ∀ target ∈ value.references, link target = other target) :
    value.relink link = value.relink other := by
  cases value with
  | null | scalar => simp only [relink]
  | ref target => simp only [relink, same target (by simp [references])]
  | seq items => simp only [relink, relinkItems_congr items (by simpa [references] using same)]
  | map entries =>
      simp only [relink, relinkEntries_congr entries (by simpa [references] using same)]

theorem relinkItems_congr {link other : ρ → Option τ} (items : List (Value ρ))
    (same : ∀ target ∈ referencesOfItems items, link target = other target) :
    relinkItems link items = relinkItems other items := by
  cases items with
  | nil => simp only [relinkItems]
  | cons item rest =>
      simp only [referencesOfItems, List.forall_mem_append] at same
      simp only [relinkItems, relink_congr item same.1, relinkItems_congr rest same.2]

theorem relinkEntries_congr {link other : ρ → Option τ} (entries : List (Value ρ × Value ρ))
    (same : ∀ target ∈ referencesOfEntries entries, link target = other target) :
    relinkEntries link entries = relinkEntries other entries := by
  cases entries with
  | nil => simp only [relinkEntries]
  | cons entry rest =>
      obtain ⟨key, value⟩ := entry
      simp only [referencesOfEntries, List.forall_mem_append] at same
      simp only [relinkEntries, relink_congr key same.1.1, relink_congr value same.1.2,
        relinkEntries_congr rest same.2]

end

mutual

/-- Translating twice is translating at once. -/
theorem relink_bind (link : ρ → Option τ) (onward : τ → Option υ) (value : Value ρ) :
    (value.relink link).relink onward = value.relink fun target => (link target).bind onward := by
  cases value with
  | null | scalar => simp only [relink]
  | ref target => cases linked : link target <;> simp [relink, linked]
  | seq items => simp only [relink, relinkItems_bind link onward items]
  | map entries => simp only [relink, relinkEntries_bind link onward entries]

theorem relinkItems_bind (link : ρ → Option τ) (onward : τ → Option υ) (items : List (Value ρ)) :
    relinkItems onward (relinkItems link items) =
      relinkItems (fun target => (link target).bind onward) items := by
  cases items with
  | nil => simp only [relinkItems]
  | cons item rest =>
      simp only [relinkItems, relink_bind link onward item, relinkItems_bind link onward rest]

theorem relinkEntries_bind (link : ρ → Option τ) (onward : τ → Option υ)
    (entries : List (Value ρ × Value ρ)) :
    relinkEntries onward (relinkEntries link entries) =
      relinkEntries (fun target => (link target).bind onward) entries := by
  cases entries with
  | nil => simp only [relinkEntries]
  | cons entry rest =>
      obtain ⟨key, value⟩ := entry
      simp only [relinkEntries, relink_bind link onward key, relink_bind link onward value,
        relinkEntries_bind link onward rest]

end

mutual

/-- A translation that changes nothing gives the value again. -/
theorem relink_some (value : Value ρ) : value.relink some = value := by
  cases value with
  | null | scalar | ref => simp [relink]
  | seq items => simp only [relink, relinkItems_some items]
  | map entries => simp only [relink, relinkEntries_some entries]

theorem relinkItems_some (items : List (Value ρ)) : relinkItems some items = items := by
  cases items with
  | nil => simp only [relinkItems]
  | cons item rest => simp only [relinkItems, relink_some item, relinkItems_some rest]

theorem relinkEntries_some (entries : List (Value ρ × Value ρ)) :
    relinkEntries some entries = entries := by
  cases entries with
  | nil => simp only [relinkEntries]
  | cons entry rest =>
      obtain ⟨key, value⟩ := entry
      simp only [relinkEntries, relink_some key, relink_some value, relinkEntries_some rest]

end

/-- Translating there and back gives the value again. -/
theorem relink_relink {link : ρ → Option τ} {back : τ → Option ρ} (value : Value ρ)
    (inverse : ∀ target ∈ value.references, (link target).bind back = some target) :
    (value.relink link).relink back = value := by
  rw [relink_bind, relink_congr value inverse]
  exact relink_some value

theorem eq_null_of_isNull {value : Value ρ} (null : value.isNull) : value = .null := by
  cases value with
  | null => rfl
  | scalar | ref | seq | map => cases null

/-- Only null and references without a translation become null. -/
theorem isNull_relink_iff {link : ρ → Option τ} {value : Value ρ} :
    (value.relink link).isNull ↔ value = .null ∨ ∃ target, value = .ref target ∧
      link target = none := by
  cases value with
  | ref target => cases linked : link target <;> simp [relink, linked, isNull]
  | null | scalar | seq | map => simp [relink, isNull]

mutual

/-- A translated value refers to the translations of what the value refers to. -/
theorem references_relink (link : ρ → Option τ) (value : Value ρ) :
    (value.relink link).references = value.references.filterMap link := by
  cases value with
  | null | scalar => simp only [relink, references, List.filterMap_nil]
  | ref target => cases linked : link target <;> simp [relink, references, linked]
  | seq items => simp only [relink, references, referencesOfItems_relink link items]
  | map entries => simp only [relink, references, referencesOfEntries_relink link entries]

theorem referencesOfItems_relink (link : ρ → Option τ) (items : List (Value ρ)) :
    referencesOfItems (relinkItems link items) = (referencesOfItems items).filterMap link := by
  cases items with
  | nil => simp only [relinkItems, referencesOfItems, List.filterMap_nil]
  | cons item rest =>
      simp only [relinkItems, referencesOfItems, List.filterMap_append,
        references_relink link item, referencesOfItems_relink link rest]

theorem referencesOfEntries_relink (link : ρ → Option τ) (entries : List (Value ρ × Value ρ)) :
    referencesOfEntries (relinkEntries link entries) =
      (referencesOfEntries entries).filterMap link := by
  cases entries with
  | nil => simp only [relinkEntries, referencesOfEntries, List.filterMap_nil]
  | cons entry rest =>
      obtain ⟨key, value⟩ := entry
      simp only [relinkEntries, referencesOfEntries, List.filterMap_append,
        references_relink link key, references_relink link value,
        referencesOfEntries_relink link rest]

end

end AuditTrail.Value
