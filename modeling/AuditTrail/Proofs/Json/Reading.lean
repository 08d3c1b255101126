import AuditTrail.Json.Printer
import AuditTrail.Json.Reader
import Mathlib

/-!
# Reading printed documents

A document that is printed is read back as it was, if its numerals are.  Texts between quotes are
read back whatever follows them; a number ends where no digit, point or exponent goes on.
-/

namespace AuditTrail.Json

section Texts

/-- The escape of a control character is read as the character. -/
theorem unit?_hexUnit_of_lt {code : Nat} (control : code < 0x20) :
    unit? (hexUnit code) = some code ∧ Piece.ofUnit code = .char (Char.ofNat code) := by
  interval_cases code <;> exact ⟨by decide, rfl⟩

/-- A one-letter escape is read as the character that it stands for. -/
theorem readPieces_escaped {mark c : Char} (escape : escaped? mark = some c) (letter : mark ≠ 'u')
    (rest : List Char) :
    readPieces ('\\' :: mark :: rest) =
      (readPieces rest).map fun (pieces, rest) => (.char c :: pieces, rest) := by
  cases found : readPieces rest <;> simp [readPieces, found, escape, letter]

/-- A printed character is read back in front of what follows. -/
theorem readPieces_writeChar (c : Char) (rest : List Char) :
    readPieces (writeChar c ++ rest) =
      (readPieces rest).map fun (pieces, rest) => (.char c :: pieces, rest) := by
  unfold writeChar
  split_ifs with quote backslash backspace formFeed newline carriage tab control
  · subst quote
    exact readPieces_escaped rfl (by decide) rest
  · subst backslash
    exact readPieces_escaped rfl (by decide) rest
  · subst backspace
    exact readPieces_escaped rfl (by decide) rest
  · subst formFeed
    exact readPieces_escaped rfl (by decide) rest
  · subst newline
    exact readPieces_escaped rfl (by decide) rest
  · subst carriage
    exact readPieces_escaped rfl (by decide) rest
  · subst tab
    exact readPieces_escaped rfl (by decide) rest
  · obtain ⟨units, piece⟩ := unit?_hexUnit_of_lt control
    rw [Char.ofNat_toNat] at piece
    simp only [hexUnit, List.map_cons, List.map_nil] at units
    cases found : readPieces rest <;> simp [hexUnit, readPieces, found, units, piece]
  · cases found : readPieces rest <;> simp [readPieces, found, backslash, control]

/-- Printed characters are read back up to the closing quote. -/
theorem readPieces_write (chars rest : List Char) :
    readPieces (chars.flatMap writeChar ++ '"' :: rest) = some (chars.map .char, rest) := by
  induction chars with
  | nil => rfl
  | cons c chars induction =>
      rw [List.flatMap_cons, List.append_assoc, readPieces_writeChar, induction]
      rfl

theorem joinPieces_chars (chars : List Char) : joinPieces (chars.map .char) = some chars := by
  induction chars with
  | nil => rfl
  | cons c chars induction => rw [List.map_cons, joinPieces, induction, Option.map_some]

/-- A printed text is read back behind its opening quote. -/
theorem readText_write (text : String) (rest : List Char) :
    readText (text.toList.flatMap writeChar ++ '"' :: rest) = some (some text, rest) := by
  rw [readText, readPieces_write]
  simp [joinPieces_chars]

/-- Texts that are printed in front of something tell where they end. -/
theorem writeText_append_inj {left right : String} {rest rest' : List Char}
    (same : writeText left ++ rest = writeText right ++ rest') : left = right ∧ rest = rest' := by
  simp only [writeText, List.cons_append, List.append_assoc, List.cons.injEq, true_and,
    List.nil_append] at same
  have read := readText_write left rest
  rw [same, readText_write] at read
  obtain ⟨texts, rests⟩ := Prod.mk.inj (Option.some.inj read)
  exact ⟨(Option.some.inj texts).symm, rests.symm⟩

end Texts

section Numbers

open Decimal

/-- What can stand behind a printed document: nothing, or a mark that ends it. -/
def Ends : List Char → Prop
  | [] => True
  | c :: _ => c = ',' ∨ c = ']' ∨ c = '\x7d'

/-- A numeral that is read back as it was printed. -/
structure Legible (numeral : Numeral) : Prop where
  /-- It begins with a sign or a digit. -/
  begins : ∃ c tail, (numeral.render true).toList = c :: tail ∧ (c = '-' ∨ c.isDigit)
  /-- It is read up to where it ends. -/
  read : ∀ rest, Ends rest →
    Numeral.read? ((numeral.render true).toList ++ rest) = some (numeral, rest)

theorem Ends.head? {rest : List Char} (ends : Ends rest) : ∀ c ∈ rest.head?, digit? c = none := by
  cases rest with
  | nil => exact fun c first => nomatch first
  | cons c rest =>
      rintro _ ⟨⟩
      rcases ends with rfl | rfl | rfl <;> rfl

theorem digit?_of_isDigit {c : Char} (digit : c.isDigit) :
    digit? c = some (c.toNat - '0'.toNat) := by
  obtain ⟨above, below⟩ := Char.isDigit_iff_toNat.mp digit
  exact if_pos ⟨above, below⟩

/-- Digits are read up to where something else follows. -/
theorem spanDigits_append {places rest : List Char} (digits : ∀ c ∈ places, c.isDigit)
    (ends : ∀ c ∈ rest.head?, digit? c = none) :
    spanDigits (places ++ rest) = (places.map fun c => c.toNat - '0'.toNat, rest) := by
  induction places with
  | nil =>
      cases rest with
      | nil => rfl
      | cons c rest => simp only [List.nil_append, spanDigits, ends c rfl, List.map_nil]
  | cons c places induction =>
      obtain ⟨digit, others⟩ := List.forall_mem_cons.mp digits
      simp only [List.cons_append, spanDigits, digit?_of_isDigit digit, induction others,
        List.map_cons]

theorem isDigit_of_mem_toDigits {c : Char} {n : Nat} (member : c ∈ Nat.toDigits 10 n) :
    c.isDigit :=
  Nat.isDigit_of_mem_toDigits (by norm_num) (by norm_num) member

theorem isDigit_digitChar {digit : Nat} (small : digit < 10) :
    (digitChar digit).isDigit ∧ (digitChar digit).toNat - '0'.toNat = digit := by
  interval_cases digit <;> decide

/-- The digits of a positive number do not start with zero. -/
theorem head_digits_ne_zero {n : Nat} (positive : 0 < n) {digit : Nat} {rest : List Nat}
    (places : digits n = digit :: rest) : digit ≠ 0 := by
  induction n using Nat.strongRecOn generalizing digit rest with
  | ind n induction =>
      by_cases small : n < 10
      · have value : n.digitChar.toNat - '0'.toNat = n := Nat.toNat_digitChar_sub_48_of_lt_ten small
        rw [digits, Nat.toDigits_of_lt_base small, List.map_singleton, List.cons.injEq,
          value] at places
        omega
      · rw [digits, Nat.toDigits_of_base_le (by norm_num) (not_lt.mp small), List.map_append,
          List.append_eq_cons_iff] at places
        rcases places with ⟨none, -⟩ | ⟨others, first, -⟩
        · exact absurd (List.map_eq_nil_iff.mp none) Nat.toDigits_ne_nil
        · exact induction (n / 10) (by omega) (by omega) first

/-- Digits do not begin with a zero that others follow. -/
theorem digits_ne_zero_cons (n digit : Nat) (rest : List Nat) : digits n ≠ 0 :: digit :: rest := by
  intro places
  rcases Nat.eq_zero_or_pos n with rfl | positive
  · cases places
  · exact head_digits_ne_zero positive places rfl

theorem ofDigits_digits (n : Nat) : ofDigits (digits n) = n := by
  rw [ofDigits, digits, List.foldl_map]
  exact Nat.ofDigitChars_ten_toDigits

/-- The characters of fraction digits. -/
def fractionChars (fraction : List Nat) : List Char :=
  if fraction.isEmpty then [] else '.' :: fraction.map digitChar

/-- The characters of an exponent, with or without a plus sign. -/
def exponentChars (plus : Bool) : Option Int → List Char
  | none => []
  | some e =>
    'e' :: ((if e < 0 then ['-'] else if plus then ['+'] else []) ++ Nat.toDigits 10 e.natAbs)

/-- A numeral is written as its sign, its whole digits, its fraction and its exponent. -/
theorem toList_render (plus : Bool) (numeral : Numeral) :
    (numeral.render plus).toList = (if numeral.negative then ['-'] else []) ++
      (Nat.toDigits 10 numeral.whole ++
        (fractionChars numeral.fraction ++ exponentChars plus numeral.exponent)) := by
  obtain ⟨negative, whole, fraction, exponent⟩ := numeral
  rw [← List.append_assoc, ← List.append_assoc]
  simp only [Numeral.render, String.toList_append]
  refine congrArg₂ _ (congrArg₂ _ (congrArg₂ _ ?_ ?_) ?_) ?_
  · cases negative <;> simp
  · simp
  · rw [fractionChars]
    split <;> simp
  · cases exponent with
    | none => rfl
    | some e => by_cases below : e < 0 <;> cases plus <;> simp [exponentChars, below]

/-- An exponent without a sign is read from its first digit on. -/
theorem readExponent?_of_isDigit {c : Char} (digit : c.isDigit) (tail : List Char) :
    Numeral.readExponent? ('e' :: c :: tail) =
      match spanDigits (c :: tail) with
      | ([], _) => none
      | (places, rest) => some (some (ofDigits places), rest) := by
  obtain ⟨above, below⟩ := Char.isDigit_iff_toNat.mp digit
  have zero : '0'.toNat = 48 := rfl
  have nine : '9'.toNat = 57 := rfl
  have written := Char.ofNat_toNat c
  generalize c.toNat = code at above below written
  subst written
  rw [zero] at above
  rw [nine] at below
  interval_cases code <;> rfl

/-- A written exponent is read up to where something else follows. -/
theorem readExponent?_chars (plus : Bool) (exponent : Option Int) {rest : List Char}
    (ends : Ends rest) :
    Numeral.readExponent? (exponentChars plus exponent ++ rest) = some (exponent, rest) := by
  cases exponent with
  | none =>
      cases rest with
      | nil => rfl
      | cons c rest => rcases ends with rfl | rfl | rfl <;> rfl
  | some e =>
      have span : spanDigits (Nat.toDigits 10 e.natAbs ++ rest) = (digits e.natAbs, rest) :=
        spanDigits_append (fun _ => isDigit_of_mem_toDigits) ends.head?
      have filled : digits e.natAbs ≠ [] :=
        fun none => Nat.toDigits_ne_nil (List.map_eq_nil_iff.mp none)
      by_cases below : e < 0
      · simp only [exponentChars, below, if_true, List.cons_append, List.nil_append,
          Numeral.readExponent?, true_or, span, ofDigits_digits]
        simp [abs_of_neg below]
      · have above := abs_of_nonneg (not_lt.mp below)
        cases plus with
        | true =>
            simp only [exponentChars, below, if_false, if_true, List.cons_append,
              List.nil_append, Numeral.readExponent?, true_or, Bool.false_eq_true, span,
              ofDigits_digits]
            simp [above]
        | false =>
            obtain ⟨c, tail, places⟩ :=
              List.exists_cons_of_ne_nil (Nat.toDigits_ne_nil (n := e.natAbs) (b := 10))
            have digit : c.isDigit := isDigit_of_mem_toDigits (places ▸ List.mem_cons_self)
            rw [places, List.cons_append] at span
            simp only [exponentChars, below, if_false, List.cons_append, List.nil_append, places,
              Bool.false_eq_true, readExponent?_of_isDigit digit, span, ofDigits_digits]
            simp [above]

/-- What follows the fraction goes on with neither a digit nor a point. -/
theorem head?_exponentChars (plus : Bool) (exponent : Option Int) {rest : List Char}
    (ends : Ends rest) :
    ∀ c ∈ (exponentChars plus exponent ++ rest).head?, digit? c = none ∧ c ≠ '.' := by
  cases exponent with
  | some e => exact fun c first => Option.some.inj first ▸ ⟨rfl, by decide⟩
  | none =>
      cases rest with
      | nil => exact fun c first => nomatch first
      | cons c rest =>
          rintro _ ⟨⟩
          rcases ends with rfl | rfl | rfl <;> exact ⟨rfl, by decide⟩

/-- Written fraction digits are read up to where the exponent follows. -/
theorem readFraction?_chars {fraction : List Nat} (small : ∀ digit ∈ fraction, digit < 10)
    {rest : List Char} (ends : ∀ c ∈ rest.head?, digit? c = none ∧ c ≠ '.') :
    Numeral.readFraction? (fractionChars fraction ++ rest) = some (fraction, rest) := by
  cases fraction with
  | nil =>
      cases rest with
      | nil => rfl
      | cons c rest =>
          rw [fractionChars, List.isEmpty_nil, if_pos rfl, List.nil_append, Numeral.readFraction?]
          exact fun _ point => (ends c rfl).2 (List.cons.inj point).1
  | cons digit others =>
      have span : spanDigits ((digit :: others).map digitChar ++ rest) =
          (digit :: others, rest) := by
        rw [spanDigits_append (fun c member => ?_) fun c first => (ends c first).1, List.map_map]
        · refine congrArg (Prod.mk · rest) ((List.map_congr_left fun digit member => ?_).trans
            (List.map_id _))
          exact (isDigit_digitChar (small digit member)).2
        · obtain ⟨digit, digit_mem, rfl⟩ := List.mem_map.mp member
          exact (isDigit_digitChar (small digit digit_mem)).1
      rw [fractionChars, List.isEmpty_cons, if_neg Bool.false_ne_true, List.cons_append,
        Numeral.readFraction?, span]

/-- A written numeral is read up to where it ends. -/
theorem read?_render (plus : Bool) {numeral : Numeral}
    (small : ∀ digit ∈ numeral.fraction, digit < 10) {rest : List Char} (ends : Ends rest) :
    Numeral.read? ((numeral.render plus).toList ++ rest) = some (numeral, rest) := by
  obtain ⟨negative, n, fraction, exponent⟩ := numeral
  have behind := head?_exponentChars plus exponent ends
  have fraction_read := readFraction?_chars small behind
  have exponent_read := readExponent?_chars plus exponent ends
  have span : spanDigits (Nat.toDigits 10 n ++ (fractionChars fraction ++
      (exponentChars plus exponent ++ rest))) =
        (digits n, fractionChars fraction ++ (exponentChars plus exponent ++ rest)) := by
    refine spanDigits_append (fun _ => isDigit_of_mem_toDigits) fun c first => ?_
    cases fraction with
    | nil => exact (behind c first).1
    | cons => exact Option.some.inj first ▸ rfl
  have unsigned : ∀ tail, Nat.toDigits 10 n ++ (fractionChars fraction ++
      (exponentChars plus exponent ++ rest)) ≠ '-' :: tail := by
    intro tail signed
    rcases List.append_eq_cons_iff.mp signed with ⟨none, -⟩ | ⟨others, first, -⟩
    · exact Nat.toDigits_ne_nil none
    · have sign : ¬ '-'.isDigit := by decide
      exact absurd (isDigit_of_mem_toDigits (first ▸ List.mem_cons_self)) sign
  rw [toList_render]
  simp only [List.append_assoc]
  -- The digits are read in the same way, whether or not a sign was read before them.
  cases negative
  all_goals
    unfold Numeral.read?
    simp only [Bool.false_eq_true, if_false, if_true, List.nil_append, List.cons_append, span,
      Option.bind_eq_bind, fraction_read, exponent_read, Option.bind_some, ofDigits_digits]
    split
    next none => exact absurd (List.map_eq_nil_iff.mp none) Nat.toDigits_ne_nil
    next places => exact absurd places (digits_ne_zero_cons _ _ _)
    next => rfl

/-- What is written with digits after the point is read back. -/
theorem legible_of_digits {numeral : Numeral} (small : ∀ digit ∈ numeral.fraction, digit < 10) :
    Legible numeral where
  begins := by
    rw [toList_render]
    cases numeral.negative with
    | true => exact ⟨'-', _, rfl, .inl rfl⟩
    | false =>
        obtain ⟨c, tail, places⟩ :=
          List.exists_cons_of_ne_nil (Nat.toDigits_ne_nil (n := numeral.whole) (b := 10))
        refine ⟨c, _, by rw [places]; rfl, .inr ?_⟩
        exact isDigit_of_mem_toDigits (places ▸ List.mem_cons_self)
  read _ ends := read?_render true small ends

/-- Integers are read back. -/
theorem legible_ofInt (n : Int) : Legible (.ofInt n) :=
  legible_of_digits fun _ member => nomatch member

theorem write_ofInt (n : Int) :
    (ofInt n).write =
      if n < 0 then '-' :: Nat.toDigits 10 n.natAbs else Nat.toDigits 10 n.natAbs := by
  split <;> simp [ofInt, write, Numeral.ofInt, Numeral.render, *]

end Numbers

section Documents

mutual

/-- Nothing is garbled, and numerals are read back. -/
def Plain : Json → Prop
  | null | bool _ | str _ => True
  | num numeral => Legible numeral
  | arr items => PlainItems items
  | obj fields => PlainFields fields
  | garbled => False

/-- All elements are plain. -/
def PlainItems : List Json → Prop
  | [] => True
  | item :: rest => item.Plain ∧ PlainItems rest

/-- All fields are plain. -/
def PlainFields : List (String × Json) → Prop
  | [] => True
  | (_, value) :: rest => value.Plain ∧ PlainFields rest

end

theorem skipBlanks_cons {c : Char} (dark : isBlank c = false) (rest : List Char) :
    skipBlanks (c :: rest) = c :: rest := by
  rw [skipBlanks, List.dropWhile_cons, dark]
  rfl

/-- A sign or a digit is neither a blank nor a mark. -/
theorem dark_of_numeral {c : Char} (begins : c = '-' ∨ c.isDigit) :
    isBlank c = false ∧ c ≠ '[' ∧ c ≠ ']' ∧ c ≠ '\x7b' ∧ c ≠ '"' ∧ c ≠ 'n' ∧ c ≠ 't' ∧ c ≠ 'f' := by
  rcases begins with rfl | digit
  · decide
  · have apart (d : Char) (other : d.isDigit = false) : c ≠ d := by
      rintro rfl
      rw [digit] at other
      cases other
    have blank : isBlank c = false := by
      simp [isBlank, apart ' ' rfl, apart '\n' rfl, apart '\t' rfl, apart '\r' rfl]
    exact ⟨blank, apart _ rfl, apart _ rfl, apart _ rfl, apart _ rfl, apart _ rfl, apart _ rfl,
      apart _ rfl⟩

/-- A printed document begins with no blank, and with no mark that ends an array. -/
theorem exists_head {json : Json} (plain : json.Plain) :
    ∃ c tail, json.write = c :: tail ∧ isBlank c = false ∧ c ≠ ']' := by
  cases json with
  | null => exact ⟨_, _, rfl, rfl, by decide⟩
  | bool value => cases value <;> exact ⟨_, _, rfl, by decide⟩
  | num numeral =>
      obtain ⟨c, tail, written, begins⟩ := (show Legible numeral from plain).begins
      have dark := dark_of_numeral begins
      exact ⟨c, tail, written, dark.1, dark.2.2.1⟩
  | str | arr | obj => exact ⟨_, _, rfl, by decide⟩
  | garbled => exact plain.elim

theorem writeItems_cons (item next : Json) (items : List Json) :
    writeItems (item :: next :: items) = item.write ++ ',' :: writeItems (next :: items) := by
  rw [writeItems]
  exact List.cons_ne_nil _ _

theorem writeFields_cons (field next : String × Json) (fields : List (String × Json)) :
    writeFields (field :: next :: fields) =
      writeText field.1 ++ ':' :: (field.2.write ++ ',' :: writeFields (next :: fields)) := by
  rw [writeFields]
  exact List.cons_ne_nil _ _

/-- So do printed elements. -/
theorem exists_head_items {item : Json} {items : List Json} (plain : PlainItems (item :: items)) :
    ∃ c tail, writeItems (item :: items) = c :: tail ∧ isBlank c = false ∧ c ≠ ']' := by
  obtain ⟨c, tail, written, dark, mark⟩ := exists_head plain.1
  cases items with
  | nil => exact ⟨c, tail, written, dark, mark⟩
  | cons next items =>
      exact ⟨c, _, by rw [writeItems_cons, written, List.cons_append], dark, mark⟩

/-- Printed fields begin with a quote. -/
theorem exists_tail_fields (field : String × Json) (fields : List (String × Json)) :
    ∃ tail, writeFields (field :: fields) = '"' :: tail := by
  cases fields with
  | nil => exact ⟨_, by rw [writeFields, writeText, List.cons_append]⟩
  | cons next fields => exact ⟨_, by rw [writeFields_cons, writeText, List.cons_append]⟩

theorem readValue_of_numeral {c : Char} (begins : c = '-' ∨ c.isDigit) (fuel : Nat)
    (tail : List Char) :
    readValue (fuel + 1) (c :: tail) =
      (Decimal.Numeral.read? (c :: tail)).map fun (numeral, rest) => (num numeral, rest) := by
  obtain ⟨dark, bracket, -, brace, quote, n, t, f⟩ := dark_of_numeral begins
  rw [readValue, skipBlanks_cons dark]
  split <;> simp_all

theorem ofFields_map (fields : List (String × Json)) :
    ofFields (fields.map fun field => (some field.1, field.2)) = obj fields := by
  have named : ∀ fields : List (String × Json),
      (fields.map fun field => (some field.1, field.2)).mapM
        (fun field => field.1.map fun name => (name, field.2)) = some fields := by
    intro fields
    induction fields with
    | nil => rfl
    | cons field fields induction => rw [List.map_cons, List.mapM_cons, induction]; rfl
  rw [ofFields, named]

/-- The name of a printed field is read in front of its value. -/
theorem readFields_name (name : String) (text : List Char) (fuel : Nat) :
    readFields (fuel + 1) (writeText name ++ ':' :: text) =
      (readValue fuel text).bind fun (value, rest) =>
        match skipBlanks rest with
        | ',' :: rest =>
          (readFields fuel rest).bind fun (fields, rest) =>
            some ((some name, value) :: fields, rest)
        | '\x7d' :: rest => some ([(some name, value)], rest)
        | _ => none := by
  rw [writeText, List.cons_append, List.append_assoc, List.singleton_append]
  have opened :=
    readFields.eq_2 ('"' :: (name.toList.flatMap writeChar ++ '"' :: ':' :: text)) fuel
  rw [skipBlanks_cons rfl] at opened
  simp only [readText_write, skipBlanks_cons (show isBlank ':' = false from rfl), expect?, if_true,
    Option.bind_eq_bind, Option.bind_some] at opened
  exact opened

mutual

/-- A printed document is read back in front of what ends it. -/
theorem readValue_write (json : Json) (plain : json.Plain) (rest : List Char) (ends : Ends rest)
    {fuel : Nat} (enough : 2 * json.write.length ≤ fuel) :
    readValue fuel (json.write ++ rest) = some (json, rest) := by
  obtain ⟨c, tail, written, -, -⟩ := exists_head plain
  obtain ⟨fuel, rfl⟩ : ∃ less, fuel = less + 1 :=
    Nat.exists_eq_succ_of_ne_zero (by rw [written, List.length_cons] at enough; omega)
  cases json with
  | null => rfl
  | bool value => cases value <;> rfl
  | num numeral =>
      obtain ⟨⟨c, tail, written, begins⟩, read⟩ := (show Legible numeral from plain)
      have read := read rest ends
      rw [write, written, List.cons_append, readValue_of_numeral begins, ← List.cons_append,
        ← written, read]
      rfl
  | str text =>
      rw [write, writeText, List.cons_append, readValue, skipBlanks_cons rfl, List.append_assoc]
      simp only [List.singleton_append, readText_write]
      rfl
  | arr items =>
      rw [write, List.length_cons, List.length_append, List.length_singleton] at enough
      rw [write, List.cons_append, readValue, skipBlanks_cons rfl, List.append_assoc]
      cases items with
      | nil => rfl
      | cons item items =>
          have read := readItems_write (item :: items) plain (List.cons_ne_nil _ _) rest
            (show 2 * _ + 1 ≤ fuel by omega)
          obtain ⟨c, tail, written, dark, mark⟩ := exists_head_items plain
          rw [written, List.cons_append] at read ⊢
          simp only [skipBlanks_cons dark, List.singleton_append]
          split
          next closed => exact absurd (List.cons.inj closed).1 mark
          next => rw [read]; rfl
  | obj fields =>
      rw [write, List.length_cons, List.length_append, List.length_singleton] at enough
      rw [write, List.cons_append, readValue, skipBlanks_cons rfl, List.append_assoc]
      cases fields with
      | nil => rfl
      | cons field fields =>
          have read := readFields_write (field :: fields) plain (List.cons_ne_nil _ _) rest
            (show 2 * _ + 1 ≤ fuel by omega)
          obtain ⟨tail, written⟩ := exists_tail_fields field fields
          rw [written, List.cons_append] at read ⊢
          simp only [skipBlanks_cons (show isBlank '"' = false from rfl), List.singleton_append]
          split
          next closed => exact absurd (List.cons.inj closed).1 (by decide)
          next => rw [read, Option.map_some, ofFields_map]
  | garbled => exact plain.elim

/-- Printed elements are read back up to and with the bracket behind them. -/
theorem readItems_write (items : List Json) (plain : PlainItems items) (filled : items ≠ [])
    (rest : List Char) {fuel : Nat} (enough : 2 * (writeItems items).length + 1 ≤ fuel) :
    readItems fuel (writeItems items ++ ']' :: rest) = some (items, rest) := by
  obtain ⟨fuel, rfl⟩ : ∃ less, fuel = less + 1 := Nat.exists_eq_succ_of_ne_zero (by omega)
  match items with
  | [] => exact absurd rfl filled
  | [item] =>
      have first := readValue_write item plain.1 (']' :: rest) (.inr (.inl rfl))
        (show _ ≤ fuel by rw [writeItems] at enough; omega)
      rw [writeItems, readItems, first]
      rfl
  | item :: next :: items =>
      rw [writeItems_cons, List.length_append, List.length_cons] at enough
      have first := readValue_write item plain.1
        (',' :: (writeItems (next :: items) ++ ']' :: rest)) (.inl rfl) (show _ ≤ fuel by omega)
      have others := readItems_write (next :: items) plain.2 (List.cons_ne_nil _ _) rest
        (show _ ≤ fuel by omega)
      rw [writeItems_cons, readItems, List.append_assoc, List.cons_append, first]
      simp only [Option.bind_eq_bind, Option.bind_some,
        skipBlanks_cons (show isBlank ',' = false from rfl), others]

/-- Printed fields are read back up to and with the brace behind them. -/
theorem readFields_write (fields : List (String × Json)) (plain : PlainFields fields)
    (filled : fields ≠ []) (rest : List Char) {fuel : Nat}
    (enough : 2 * (writeFields fields).length + 1 ≤ fuel) :
    readFields fuel (writeFields fields ++ '\x7d' :: rest) =
      some (fields.map fun field => (some field.1, field.2), rest) := by
  obtain ⟨fuel, rfl⟩ : ∃ less, fuel = less + 1 := Nat.exists_eq_succ_of_ne_zero (by omega)
  match fields with
  | [] => exact absurd rfl filled
  | [(name, value)] =>
      rw [writeFields, List.length_append, List.length_cons] at enough
      have first := readValue_write value plain.1 ('\x7d' :: rest) (.inr (.inr rfl))
        (show _ ≤ fuel by omega)
      rw [writeFields, List.append_assoc, List.cons_append, readFields_name, first]
      rfl
  | field :: next :: fields =>
      rw [writeFields_cons, List.length_append, List.length_cons, List.length_append,
        List.length_cons] at enough
      have first := readValue_write field.2 plain.1
        (',' :: (writeFields (next :: fields) ++ '\x7d' :: rest)) (.inl rfl)
        (show _ ≤ fuel by omega)
      have others := readFields_write (next :: fields) plain.2 (List.cons_ne_nil _ _) rest
        (show _ ≤ fuel by omega)
      rw [writeFields_cons, List.append_assoc, List.cons_append, List.append_assoc,
        List.cons_append, readFields_name, first]
      simp only [Option.bind_some, skipBlanks_cons (show isBlank ',' = false from rfl), others,
        List.map_cons]

end

/-- A printed document is read back. -/
theorem read?_print {json : Json} (plain : json.Plain) : read? json.print = some json := by
  have read := readValue_write json plain [] trivial (Nat.le_succ _)
  rw [List.append_nil] at read
  simp only [read?, print, String.toList_ofList, read]
  rfl

end Documents

end AuditTrail.Json
