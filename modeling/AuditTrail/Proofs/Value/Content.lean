import AuditTrail.Proofs.Decimal.Text
import AuditTrail.Proofs.Text.Quoted
import AuditTrail.Proofs.Value.Equality

/-!
# Contents of scalars

The content of a scalar names its kind and shows its value in brackets.  Texts are quoted and all
other values contain no bracket, so a content tells where it ends and which scalar it is, up to
words that are not numbers.
-/

namespace AuditTrail.Scalar

open Decimal

variable {leaf other : Scalar} {rest rest' : List Char}

/-- The kind that a content names. -/
def kind : Scalar → String
  | bool _ => "Bool"
  | int _ => "Int"
  | float _ => "Float"
  | text _ => "Text"

/-- The value that a content shows. -/
def shown : Scalar → String
  | bool value => if value then "true" else "false"
  | int value => (Numeral.ofInt value).render false
  | float word => contentFloat.text word
  | text value => Text.quoted value

/-- A content is the kind with the value in brackets. -/
theorem toList_content (leaf : Scalar) (rest : List Char) :
    leaf.content.toList ++ rest =
      leaf.kind.toList ++ '(' :: (leaf.shown.toList ++ ')' :: rest) := by
  cases leaf <;> simp [content, kind, shown]

theorem bracket_notMem_kind (leaf : Scalar) : '(' ∉ leaf.kind.toList := by
  cases leaf <;> simp [kind]

/-- What is shown of a scalar that is not a text consists of digits, letters and a few marks. -/
theorem mem_shown {c : Char} (plain : ∀ value, leaf ≠ text value) (member : c ∈ leaf.shown.toList) :
    c.isDigit ∨ c ∈ Numeral.marks ++ "NaN".toList ++ "inf".toList ∨
      c ∈ "true".toList ++ "false".toList := by
  cases leaf with
  | bool value =>
      refine .inr (.inr (List.mem_append.mpr ?_))
      cases value with
      | true => exact .inl member
      | false => exact .inr member
  | int value =>
      have numeral : c ∈ ((Numeral.ofInt value).render false).toList := member
      have whole : ∀ digit ∈ (Numeral.ofInt value).fraction, digit < 10 :=
        fun _ digit => nomatch digit
      refine (Numeral.mem_render whole numeral).imp_right fun known => .inl ?_
      exact List.mem_append_left _ (List.mem_append_left _ known)
  | float word => exact (Layout.mem_text member).imp_right .inl
  | text value => exact absurd rfl (plain value)

theorem notMem_shown {stop : Char} (plain : ∀ value, leaf ≠ text value)
    (mark : stop = ')' ∨ stop = '=') : stop ∉ leaf.shown.toList := by
  intro member
  have known := mem_shown plain member
  rcases mark with rfl | rfl <;> exact absurd known (by decide)

/-- What is shown begins with a quote, or it is something without brackets. -/
theorem shown_cases (leaf : Scalar) : (∃ tail, leaf.shown.toList = '"' :: tail) ∨
    leaf.shown.toList ≠ [] ∧ ')' ∉ leaf.shown.toList ∧ '=' ∉ leaf.shown.toList := by
  have plain_case (plain : ∀ value, leaf ≠ text value) (filled : leaf.shown ≠ "") :
      leaf.shown.toList ≠ [] ∧ ')' ∉ leaf.shown.toList ∧ '=' ∉ leaf.shown.toList :=
    ⟨fun empty => filled (String.toList_eq_nil_iff.mp empty), notMem_shown plain (.inl rfl),
      notMem_shown plain (.inr rfl)⟩
  cases leaf with
  | bool value => exact .inr (plain_case nofun (by cases value <;> decide))
  | int value => exact .inr (plain_case nofun (Numeral.render_ne_empty false (.ofInt value)))
  | float word => exact .inr (plain_case nofun (contentFloat.text_ne_empty word))
  | text value => exact .inl ⟨_, Text.toList_quoted value⟩

/-- A written integer tells the integer. -/
theorem render_ofInt_inj {n m : Int}
    (same : (Numeral.ofInt n).render false = (Numeral.ofInt m).render false) : n = m := by
  have whole (n : Int) : ∀ digit ∈ (Numeral.ofInt n).fraction, digit < 10 :=
    fun _ digit => nomatch digit
  have read (n : Int) :
      Numeral.read? (((Numeral.ofInt n).render false).toList ++ []) = some (.ofInt n, []) :=
    Json.read?_render false (whole n) trivial
  have numerals := (read n).symm.trans (same ▸ read m)
  rw [Option.some.injEq, Prod.mk.injEq, and_iff_left rfl] at numerals
  rw [← Option.some.injEq, ← integer?_ofInt n, Json.ofInt, numerals]
  exact integer?_ofInt m

/-- What is shown of scalars of one kind tells them, up to the bracket behind it. -/
theorem shown_append_inj (kinds : leaf.kind = other.kind)
    (same : leaf.shown.toList ++ ')' :: rest = other.shown.toList ++ ')' :: rest') :
    leaf.canonical = other.canonical ∧ rest = rest' := by
  have shown_eq (plain : ∀ value, leaf ≠ text value) (other_plain : ∀ value, other ≠ text value) :
      leaf.shown = other.shown ∧ rest = rest' := by
    obtain ⟨values, rests⟩ := Text.append_stop_inj (notMem_shown plain (.inl rfl))
      (notMem_shown other_plain (.inl rfl)) same
    exact ⟨String.toList_inj.mp values, rests⟩
  cases leaf <;> cases other <;> simp [kind] at kinds
  case bool.bool value twin =>
    obtain ⟨values, rests⟩ := shown_eq nofun nofun
    refine ⟨?_, rests⟩
    revert values
    cases value <;> cases twin <;> decide
  case int.int value twin =>
    obtain ⟨values, rests⟩ := shown_eq nofun nofun
    exact ⟨congrArg int (render_ofInt_inj values), rests⟩
  case float.float word twin =>
    obtain ⟨values, rests⟩ := shown_eq nofun nofun
    exact ⟨congrArg float (contentFloat.text_inj values), rests⟩
  case text.text value twin =>
    obtain ⟨rfl, behind⟩ := Text.quoted_append_inj same
    exact ⟨rfl, (List.cons.inj behind).2⟩

/-- A content tells the scalar, up to words that are not numbers, whatever follows it. -/
theorem content_append_inj (same : leaf.content.toList ++ rest = other.content.toList ++ rest') :
    leaf.canonical = other.canonical ∧ rest = rest' := by
  rw [toList_content, toList_content] at same
  obtain ⟨kinds, values⟩ :=
    Text.append_stop_inj leaf.bracket_notMem_kind other.bracket_notMem_kind same
  exact shown_append_inj (String.toList_inj.mp kinds) values

/-- What is shown does not begin with the bracket that closes it. -/
theorem shown_append_ne (leaf : Scalar) : leaf.shown.toList ++ ')' :: rest ≠ ')' :: rest' := by
  intro same
  rcases leaf.shown_cases with ⟨tail, quoted⟩ | ⟨filled, free, -⟩
  · rw [quoted] at same
    exact absurd (List.cons.inj same).1 (by decide)
  · have same : leaf.shown.toList ++ ')' :: rest = [] ++ ')' :: rest' := same
    exact filled (Text.append_stop_inj free List.not_mem_nil same).1

/-- What is shown does not begin like the setting of a property. -/
theorem shown_append_ne_setting {name : List Char} (bracket : ')' ∉ name) (quote : '"' ∉ name) :
    leaf.shown.toList ++ ')' :: rest ≠ name ++ '=' :: rest' := by
  rcases leaf.shown_cases with ⟨tail, quoted⟩ | ⟨-, -, free⟩
  · rw [quoted]
    cases name with
    | nil => exact fun same => absurd (List.cons.inj same).1 (by decide)
    | cons c name => exact fun same => quote ((List.cons.inj same).1 ▸ List.mem_cons_self)
  · exact Text.append_stops_ne (by decide) free bracket

end AuditTrail.Scalar
