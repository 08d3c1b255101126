/-!
# Answers that may fail

What an answer says, read off the steps that lead to it or off its value.
-/

namespace AuditTrail

variable {ε α β : Type}

/-- What succeeds after another step does so from what that step gave. -/
theorem bind_eq_ok_iff {first : Except ε α} {next : α → Except ε β} {result : β} :
    first >>= next = .ok result ↔ ∃ given, first = .ok given ∧ next given = .ok result := by
  cases first with
  | error => exact ⟨fun failed => (nomatch failed), fun ⟨_, failed, _⟩ => (nomatch failed)⟩
  | ok given =>
      refine ⟨fun done => ⟨given, rfl, done⟩, ?_⟩
      rintro ⟨_, same, done⟩
      cases same
      exact done

/-- A mapped answer succeeds when the answer does. -/
theorem map_eq_ok_iff {answer : Except ε α} {f : α → β} {result : β} :
    answer.map f = .ok result ↔ ∃ value, answer = .ok value ∧ f value = result := by
  cases answer <;> simp [Except.map]

/-- A mapped answer fails as the answer does. -/
theorem map_eq_error_iff {answer : Except ε α} {f : α → β} {error : ε} :
    answer.map f = .error error ↔ answer = .error error := by
  cases answer <;> simp [Except.map]

/-- Wording an error in another way does not change what succeeds. -/
theorem mapError_eq_ok_iff {δ : Type} {answer : Except ε α} {word : ε → δ} {value : α} :
    answer.mapError word = .ok value ↔ answer = .ok value := by
  cases answer with
  | error => exact ⟨fun failed => (nomatch failed), fun failed => (nomatch failed)⟩
  | ok =>
      exact ⟨fun same => congrArg Except.ok (Except.ok.inj same),
        fun same => congrArg Except.ok (Except.ok.inj same)⟩

theorem exists_of_toOption {answer : Except ε α} (answered : answer.toOption.isSome) :
    ∃ value, answer = .ok value := by
  cases answer with
  | error => cases answered
  | ok value => exact ⟨value, rfl⟩

theorem mem_toOption_iff {answer : Except ε α} {value : α} :
    value ∈ answer.toOption ↔ answer = .ok value := by
  cases answer <;> simp [Except.toOption]

theorem mem_toOption {answer : Except ε α} {value : α} (answered : answer = .ok value) :
    value ∈ answer.toOption :=
  mem_toOption_iff.mpr answered

/-- Answers that are the same once their values are mapped fail with the same error, or succeed with
values that are mapped to the same. -/
theorem map_eq_map_iff {γ : Type} {first : Except ε α} {second : Except ε β} {f : α → γ}
    {g : β → γ} :
    first.map f = second.map g ↔
      (∃ error, first = .error error ∧ second = .error error) ∨
        ∃ value other, first = .ok value ∧ second = .ok other ∧ f value = g other := by
  cases first <;> cases second <;> simp [Except.map, eq_comm]

/-- Steps that answer the same once mapped, whatever is mapped to the same before, answer the same
together. -/
theorem map_bind_congr {γ δ : Type} {α' β' : Type} {first : Except ε α} {second : Except ε β}
    {f : α → γ} {g : β → γ} {next : α → Except ε α'} {next' : β → Except ε β'} {h : α' → δ}
    {h' : β' → δ} (same : first.map f = second.map g)
    (steps : ∀ value other, f value = g other → (next value).map h = (next' other).map h') :
    (first >>= next).map h = (second >>= next').map h' := by
  rcases map_eq_map_iff.mp same with ⟨error, rfl, rfl⟩ | ⟨value, other, rfl, rfl, mapped⟩
  · rfl
  · exact steps value other mapped

/-- A relation of answers that programs keep if it holds of their steps. -/
structure Compatible (R : ∀ {α : Type}, Except ε α → Except ε α → Prop) : Prop where
  /-- A value is related to itself. -/
  ok {α : Type} (value : α) : R (.ok value) (.ok value)
  /-- Related steps come one after another. -/
  bind {α β : Type} {first second : Except ε α} {next next' : α → Except ε β} :
    R first second → (∀ value, R (next value) (next' value)) → R (first >>= next) (second >>= next')

theorem compatible_eq : @Compatible ε Eq where
  ok _ := rfl
  bind same steps := by rw [same, funext steps]

/-- What one answer gives, the other one gives too. -/
def Refines {α : Type} (first second : Except ε α) : Prop :=
  ∀ value, first = .ok value → second = .ok value

theorem compatible_refines : @Compatible ε Refines where
  ok _ _ same := same
  bind refines steps result done := by
    obtain ⟨value, given, follows⟩ := bind_eq_ok_iff.mp done
    exact bind_eq_ok_iff.mpr ⟨value, refines value given, steps value result follows⟩

end AuditTrail
