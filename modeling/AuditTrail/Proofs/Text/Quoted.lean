import AuditTrail.Text.Quoted
import Mathlib

/-!
# Quoted texts tell where they end

No quoted character is a beginning of another one, and none begins with a quote, so a quoted text
can be told from what follows it.
-/

namespace AuditTrail.Text

variable {rest rest' : List Char}

/-- Texts without a stop tell what they are in front of the stop. -/
theorem append_stop_inj {stop : Char} {left right : List Char} (left_free : stop ∉ left)
    (right_free : stop ∉ right) (same : left ++ stop :: rest = right ++ stop :: rest') :
    left = right ∧ rest = rest' := by
  have cut (text behind : List Char) (free : stop ∉ text) :
      (text ++ stop :: behind).takeWhile (· ≠ stop) = text := by
    rw [List.takeWhile_append_of_pos fun c member =>
        decide_eq_true (ne_of_mem_of_not_mem member free),
      List.takeWhile_cons_of_neg (by simp), List.append_nil]
  have texts : left = right := by
    rw [← cut left rest left_free, same, cut right rest' right_free]
  rw [texts] at same
  exact ⟨texts, (List.cons.inj (List.append_cancel_left same)).2⟩

/-- Texts in front of different stops, each without the other's stop, are different. -/
theorem append_stops_ne {stop other : Char} {left right : List Char} (different : stop ≠ other)
    (left_free : other ∉ left) (right_free : stop ∉ right) :
    left ++ stop :: rest ≠ right ++ other :: rest' := by
  intro same
  rcases List.append_eq_append_iff.mp same with
    ⟨between, longer, behind⟩ | ⟨between, longer, behind⟩
  · cases between with
    | nil => exact different (List.cons.inj behind).1
    | cons c between =>
        obtain ⟨rfl, -⟩ := List.cons.inj behind
        exact right_free (longer ▸ List.mem_append_right left List.mem_cons_self)
  · cases between with
    | nil => exact different (List.cons.inj behind).1.symm
    | cons c between =>
        obtain ⟨rfl, -⟩ := List.cons.inj behind
        exact left_free (longer ▸ List.mem_append_right right List.mem_cons_self)

/-- Texts of parts tell the parts in front of a stop, if each part is told by its own text and none
begins with the stop. -/
theorem flatMap_append_inj {α : Type} {part : α → List Char} {stop : Char} {items others : List α}
    (told : ∀ item ∈ items, ∀ other ∈ others, ∀ behind behind',
      part item ++ behind = part other ++ behind' → item = other ∧ behind = behind')
    (begins : ∀ item ∈ items, ∀ behind behind', part item ++ behind ≠ stop :: behind')
    (other_begins : ∀ other ∈ others, ∀ behind behind', part other ++ behind ≠ stop :: behind')
    (same : items.flatMap part ++ stop :: rest = others.flatMap part ++ stop :: rest') :
    items = others ∧ rest = rest' := by
  induction items generalizing others with
  | nil =>
      cases others with
      | nil => exact ⟨rfl, (List.cons.inj same).2⟩
      | cons other others =>
          rw [List.flatMap_cons, List.append_assoc] at same
          exact absurd same.symm (other_begins other List.mem_cons_self _ _)
  | cons item items induction =>
      rw [List.flatMap_cons, List.append_assoc] at same
      cases others with
      | nil => exact absurd same (begins item List.mem_cons_self _ _)
      | cons other others =>
          rw [List.flatMap_cons, List.append_assoc] at same
          obtain ⟨rfl, behind⟩ :=
            told item List.mem_cons_self other List.mem_cons_self _ _ same
          obtain ⟨rfl, rests⟩ := induction
            (fun item member other other_member =>
              told item (List.mem_cons_of_mem _ member) other (List.mem_cons_of_mem _ other_member))
            (fun item member => begins item (List.mem_cons_of_mem _ member))
            (fun other member => other_begins other (List.mem_cons_of_mem _ member)) behind
          exact ⟨rfl, rests⟩

/-- Hexadecimal digits contain no brace. -/
theorem brace_notMem_toDigits (n : Nat) : '\x7d' ∉ Nat.toDigits 16 n := by
  have digit : ∀ n < 16, Nat.digitChar n ≠ '\x7d' := by decide
  induction n using Nat.strongRecOn with
  | ind n induction =>
      by_cases small : n < 16
      · rw [Nat.toDigits_of_lt_base small, List.mem_singleton]
        exact (digit n small).symm
      · rw [Nat.toDigits_of_base_le (by norm_num) (not_lt.mp small), List.mem_append,
          List.mem_singleton]
        rintro (before | last)
        · exact induction (n / 16) (by omega) before
        · exact digit (n % 16) (Nat.mod_lt _ (by norm_num)) last.symm

/-- Hexadecimal digits tell their number. -/
theorem toDigits_inj {n m : Nat} (same : Nat.toDigits 16 n = Nat.toDigits 16 m) : n = m := by
  have digits : ∀ n < 16, ∀ m < 16, Nat.digitChar n = Nat.digitChar m → n = m := by decide
  have short (k : Nat) (digit : Char) (many : 16 ≤ k) : Nat.toDigits 16 k ≠ [digit] := by
    rw [Nat.toDigits_of_base_le (by norm_num) many]
    intro single
    exact Nat.toDigits_ne_nil (List.append_eq_singleton_iff.mp single |>.resolve_right
      (fun last => (nomatch last.2))).1
  induction n using Nat.strongRecOn generalizing m with
  | ind n induction =>
      by_cases small : n < 16
      · rw [Nat.toDigits_of_lt_base small] at same
        by_cases other_small : m < 16
        · rw [Nat.toDigits_of_lt_base other_small, List.singleton_inj] at same
          exact digits n small m other_small same
        · exact absurd same.symm (short m _ (not_lt.mp other_small))
      · by_cases other_small : m < 16
        · rw [Nat.toDigits_of_lt_base other_small] at same
          exact absurd same (short n _ (not_lt.mp small))
        · rw [Nat.toDigits_of_base_le (by norm_num) (not_lt.mp small),
            Nat.toDigits_of_base_le (by norm_num) (not_lt.mp other_small)] at same
          obtain ⟨before, last⟩ := List.append_inj' same rfl
          have quotients := induction (n / 16) (by omega) before
          have remainders := digits (n % 16) (Nat.mod_lt _ (by norm_num)) (m % 16)
            (Nat.mod_lt _ (by norm_num)) (List.singleton_inj.mp last)
          omega

/-- The letters of escapes, with what they stand for. -/
def escapes : List (Char × Char) :=
  [('t', '\t'), ('r', '\r'), ('n', '\n'), ('0', '\x00'), ('"', '"'), ('\\', '\\')]

/-- A character is quoted as itself, by a letter, or by its number. -/
theorem quotedChar_cases (c : Char) :
    ((quotedChar c).toList = [c] ∧ c ≠ '\\' ∧ c ≠ '"') ∨
      (∃ letter, (letter, c) ∈ escapes ∧ (quotedChar c).toList = ['\\', letter]) ∨
      (quotedChar c).toList = '\\' :: 'u' :: '\x7b' :: (Nat.toDigits 16 c.toNat ++ ['\x7d']) := by
  unfold quotedChar
  split_ifs with tab carriage newline null quote backslash unprintable
  · exact .inr (.inl ⟨'t', by simp [escapes, tab], rfl⟩)
  · exact .inr (.inl ⟨'r', by simp [escapes, carriage], rfl⟩)
  · exact .inr (.inl ⟨'n', by simp [escapes, newline], rfl⟩)
  · exact .inr (.inl ⟨'0', by simp [escapes, null], rfl⟩)
  · exact .inr (.inl ⟨'"', by simp [escapes, quote], rfl⟩)
  · exact .inr (.inl ⟨'\\', by simp [escapes, backslash], rfl⟩)
  · exact .inr (.inr (by simp [escapedNumber]))
  · exact .inl ⟨by simp, backslash, quote⟩

theorem letter_ne_u : ∀ escape ∈ escapes, escape.1 ≠ 'u' := by decide

theorem escapes_inj :
    ∀ escape ∈ escapes, ∀ other ∈ escapes, escape.1 = other.1 → escape = other := by
  decide

/-- A quoted character tells what it is, whatever follows it. -/
theorem quotedChar_append_inj {c d : Char}
    (same : (quotedChar c).toList ++ rest = (quotedChar d).toList ++ rest') :
    c = d ∧ rest = rest' := by
  rcases quotedChar_cases c with
    ⟨written, plain, -⟩ | ⟨letter, escape, written⟩ | written <;>
  rcases quotedChar_cases d with
    ⟨other_written, other_plain, -⟩ | ⟨_, other_escape, other_written⟩ | other_written
  all_goals
    simp only [written, other_written, List.cons_append, List.nil_append, List.append_assoc,
      List.cons.injEq, true_and] at same
  · exact same
  · exact absurd same.1 plain
  · exact absurd same.1 plain
  · exact absurd same.1.symm other_plain
  · exact ⟨(Prod.mk.inj (escapes_inj _ escape _ other_escape same.1)).2, same.2⟩
  · exact absurd same.1 (letter_ne_u _ escape)
  · exact absurd same.1.symm other_plain
  · exact absurd same.1.symm (letter_ne_u _ other_escape)
  · obtain ⟨numbers, rests⟩ :=
      append_stop_inj (brace_notMem_toDigits _) (brace_notMem_toDigits _) same
    exact ⟨Char.toNat_inj.mp (toDigits_inj numbers), rests⟩

/-- No quoted character begins with a quote. -/
theorem quotedChar_append_ne (c : Char) : (quotedChar c).toList ++ rest ≠ '"' :: rest' := by
  rcases quotedChar_cases c with ⟨written, -, plain⟩ | ⟨letter, -, written⟩ | written <;>
    simp [*]

theorem toList_quoted (text : String) :
    (quoted text).toList =
      '"' :: (text.toList.flatMap fun c => (quotedChar c).toList) ++ ['"'] := by
  simp [quoted, String.toList_join, List.flatMap_map]

/-- A quoted text tells what it is, whatever follows it. -/
theorem quoted_append_inj {left right : String}
    (same : (quoted left).toList ++ rest = (quoted right).toList ++ rest') :
    left = right ∧ rest = rest' := by
  rw [toList_quoted, toList_quoted, List.cons_append, List.cons_append, List.cons_append,
    List.cons_append, List.append_assoc, List.append_assoc] at same
  obtain ⟨texts, rests⟩ := flatMap_append_inj (fun _ _ _ _ _ _ => quotedChar_append_inj)
    (fun c _ _ _ => quotedChar_append_ne c) (fun c _ _ _ => quotedChar_append_ne c)
    (List.cons.inj same).2
  exact ⟨String.toList_inj.mp texts, rests⟩

end AuditTrail.Text
