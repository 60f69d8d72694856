import Mathlib.Algebra.Field.Rat
import Mathlib.Data.List.Induction
import Mathlib.Tactic.FieldSimp
import Mathlib.Tactic.Ring
import ClassLang.Proofs.Parser.ExprComplete
import ClassLang.Proofs.Scanner.Meaning

/-!
# Numbers lose nothing

A number is written with digits, and with a point and more digits behind these
if it has a fraction (`Numeral`). The reader takes the digits on both sides for
numbers of their own, and keeps how many stand behind the point. So noughts in
front of a fraction are not lost: they are filled up again where the number is
written (`leftpad_toDigits`), and they count when the two numbers are put
together (`fractionNumber_eq`). In front of the point there are no noughts to be
lost, since a number with superfluous ones is refused.
-/

namespace ClassLang

/-! ## Digits -/

section

variable {digits : List Char}

/-- A digit is written as itself. -/
theorem digitChar_of_isDigit {c : Char} (h : c.isDigit = true) :
    Nat.digitChar (c.toNat - '0'.toNat) = c := by
  obtain ⟨hlow, hhigh⟩ := Char.isDigit_iff_toNat.mp h
  have hzero : '0'.toNat = 48 := rfl
  have hnine : '9'.toNat = 57 := rfl
  apply Char.toNat_inj.mp
  rw [Nat.toNat_digitChar_of_lt_ten (by omega)]
  omega

theorem sub_zero_lt_ten {c : Char} (h : c.isDigit = true) : c.toNat - '0'.toNat < 10 := by
  obtain ⟨-, hhigh⟩ := Char.isDigit_iff_toNat.mp h
  have hzero : '0'.toNat = 48 := rfl
  have hnine : '9'.toNat = 57 := rfl
  omega

/-- One more digit of a number. -/
theorem toDigits_snoc {n : Nat} {last : Char} (hn : 0 < n) (hlast : last.isDigit = true) :
    Nat.toDigits 10 (10 * n + (last.toNat - '0'.toNat)) = Nat.toDigits 10 n ++ [last] := by
  have hlt := sub_zero_lt_ten hlast
  rw [← Nat.toDigits_append_toDigits (by decide) hn hlt, Nat.toDigits_of_lt_base hlt,
    digitChar_of_isDigit hlast]

/-- The digits of the number that digits denote, filled up with noughts, are
these digits. -/
theorem leftpad_toDigits (hdigits : ∀ c ∈ digits, c.isDigit = true) (hne : digits ≠ []) :
    (Nat.toDigits 10 (Nat.ofDigitChars 10 digits 0)).leftpad digits.length '0' = digits := by
  -- The last digit is the remainder, so the induction is from the end.
  induction digits using List.reverseRecOn with
  | nil => exact absurd rfl hne
  | append_singleton front last ih =>
    rw [List.forall_mem_append, List.forall_mem_singleton] at hdigits
    obtain ⟨hfront, hlast⟩ := hdigits
    have hsingle : Nat.toDigits 10 (last.toNat - '0'.toNat) = [last] := by
      rw [Nat.toDigits_of_lt_base (sub_zero_lt_ten hlast), digitChar_of_isDigit hlast]
    rw [Nat.ofDigitChars_append, Nat.ofDigitChars_cons, Nat.ofDigitChars_nil, List.length_append,
      List.length_singleton]
    by_cases hnil : front = []
    · subst hnil
      rw [Nat.ofDigitChars_nil, Nat.mul_zero, Nat.zero_add, hsingle]
      rfl
    have ih := ih hfront hnil
    generalize Nat.ofDigitChars 10 front 0 = n at ih ⊢
    rcases Nat.eq_zero_or_pos n with rfl | hn
    · -- All digits in front are noughts.
      obtain ⟨m, hm⟩ := Nat.exists_eq_add_of_lt (List.length_pos_iff.mpr hnil)
      rw [Nat.mul_zero, Nat.zero_add, hsingle]
      rw [Nat.toDigits_zero, hm] at ih
      rw [hm]
      simp only [List.leftpad, List.length_singleton, Nat.zero_add, Nat.add_sub_cancel] at ih ⊢
      rw [List.replicate_succ', ih]
    · rw [toDigits_snoc hn hlast]
      simp only [List.leftpad, List.length_append, List.length_singleton, Nat.add_sub_add_right]
        at ih ⊢
      rw [← List.append_assoc, ih]

/-- There is nothing to fill up where there is no superfluous nought in front. -/
theorem toDigits_ofDigitChars (hdigits : ∀ c ∈ digits, c.isDigit = true) (hne : digits ≠ [])
    (hzero : ¬ (1 < digits.length ∧ digits.head? = some '0')) :
    Nat.toDigits 10 (Nat.ofDigitChars 10 digits 0) = digits := by
  have hpad := leftpad_toDigits hdigits hne
  have hpos := Nat.length_toDigits_pos (b := 10) (n := Nat.ofDigitChars 10 digits 0)
  generalize Nat.toDigits 10 (Nat.ofDigitChars 10 digits 0) = short at hpad hpos ⊢
  rw [List.leftpad] at hpad
  rcases hmissing : digits.length - short.length with _ | m
  · rw [hmissing] at hpad
    exact hpad
  · -- Something was filled up, so a nought stands in front.
    rw [hmissing, List.replicate_succ] at hpad
    refine absurd ⟨by omega, ?_⟩ hzero
    rw [← hpad]
    rfl

end

/-- The number that digits behind a point denote: each counts a tenth of what it
would count one place further left. -/
def fractionNumber : List Char → ℚ
  | [] => 0
  | d :: ds => ((d.toNat - '0'.toNat : ℕ) + fractionNumber ds) / 10

/-- Taken for a number of their own, these digits count by so many places less. -/
theorem fractionNumber_eq (digits : List Char) :
    fractionNumber digits = (Nat.ofDigitChars 10 digits 0 : ℚ) / 10 ^ digits.length := by
  induction digits with
  | nil => simp [fractionNumber]
  | cons d ds ih =>
    have hfirst : Nat.ofDigitChars 10 (d :: ds) 0
        = 10 ^ ds.length * (d.toNat - '0'.toNat) + Nat.ofDigitChars 10 ds 0 := by
      rw [Nat.ofDigitChars_cons, Nat.mul_zero, Nat.zero_add]
      exact Nat.ofDigitChars_eq_ofDigitChars_zero
    rw [fractionNumber, ih, hfirst, List.length_cons]
    push_cast
    field_simp
    ring

/-! ## Numerals -/

/-- A number as it is written. -/
structure Numeral where
  /-- the digits in front of the point -/
  whole : List Char
  /-- the digits behind the point; without any there is no point -/
  fraction : List Char := []
  /-- there are digits in front of the point -/
  whole_ne_nil : whole ≠ []
  /-- they are digits -/
  whole_digits : ∀ c ∈ whole, c.isDigit = true
  /-- so are those behind it -/
  fraction_digits : ∀ c ∈ fraction, c.isDigit = true

namespace Numeral

variable (n : Numeral)

/-- The digits, with the point between them. -/
def text : List Char := n.whole ++ Lexeme.pointed n.fraction

/-- The number that is written so. -/
def number : ℚ := Nat.ofDigitChars 10 n.whole 0 + fractionNumber n.fraction

/-- There is no superfluous nought in front, and the digits on both sides of the
point denote numbers in range. -/
structure IsLegal : Prop where
  /-- a nought stands in front only if it stands alone -/
  nought : ¬ (1 < n.whole.length ∧ n.whole.head? = some '0')
  /-- the digits in front of the point -/
  whole : Nat.ofDigitChars 10 n.whole 0 < 2 ^ 63
  /-- the digits behind the point -/
  fraction : Nat.ofDigitChars 10 n.fraction 0 < 2 ^ 63

end Numeral

/-- Is this a number? -/
def Kind.isNumber : Kind → Bool
  | integer _ | double _ _ _ => true
  | _ => false

/-- The number that a literal stands for. -/
def Expr.number? : Expr → Option ℚ
  | integer value => some value.val
  | decimal whole fraction places => some (whole.val + fraction.val / 10 ^ places)
  | _ => none

namespace Lexeme

variable {digits : List Char} {value : Integer}

/-- Digits denote a number in range just if it is below the limit. -/
theorem exists_numeral?_iff :
    (∃ value, numeral? digits = some value) ↔ Nat.ofDigitChars 10 digits 0 < 2 ^ 63 := by
  rw [← Option.isSome_iff_exists, Option.isSome_iff_ne_none, numeral?, Ne,
    Integer.ofInt?_eq_none_iff, InRange]
  omega

/-- A number is written with the digits that denote it. -/
theorem toList_text_of_numeral? (h : numeral? digits = some value)
    (hdigits : ∀ c ∈ digits, c.isDigit = true) (hne : digits ≠ [])
    (hzero : ¬ (1 < digits.length ∧ digits.head? = some '0')) : value.text.toList = digits := by
  rw [toList_text (nonneg_of_numeral? h), val_of_numeral? h, Int.toNat_natCast,
    toDigits_ofDigitChars hdigits hne hzero]

/-- A fraction is written with the digits that denote it, noughts in front
included. -/
theorem toList_decimalText_of_numeral? (whole : Integer) (h : numeral? digits = some value)
    (hdigits : ∀ c ∈ digits, c.isDigit = true) (hne : digits ≠ []) :
    (decimalText whole value digits.length).toList = whole.text.toList ++ '.' :: digits := by
  have habs : value.val.natAbs = Nat.ofDigitChars 10 digits 0 := by
    rw [val_of_numeral? h, Int.natAbs_natCast]
  rw [decimalText, if_neg (Int.not_lt.mpr (nonneg_of_numeral? h)), habs,
    leftpad_toDigits hdigits hne]
  simp

/-- **Digits lose nothing.** What legal ones mean is a number, and the literal
that it makes is written with them and stands for what they denote. -/
theorem exists_literal_of_isLegal {n : Numeral} (h : n.IsLegal)
    (hplaces : n.fraction.length < 4294967296) :
    ∃ k e, numberKind? n.whole n.fraction = some k ∧ k.isNumber = true ∧ literal? k = some e ∧
      e.text.toList = n.text ∧ e.number? = some n.number := by
  obtain ⟨w, hw⟩ := exists_numeral?_iff.mpr h.whole
  obtain ⟨f, hf⟩ := exists_numeral?_iff.mpr h.fraction
  have hwhole := toList_text_of_numeral? hw n.whole_digits n.whole_ne_nil h.nought
  by_cases hnil : n.fraction = []
  · refine ⟨.integer w, .integer w, ?_, rfl, rfl, ?_, ?_⟩
    · rw [hnil]
      simp only [numberKind?, hw]
    · rw [Expr.text, hwhole, Numeral.text, hnil, pointed, List.append_nil]
    · rw [Expr.number?, val_of_numeral? hw, Numeral.number, hnil, fractionNumber, add_zero,
        Int.cast_natCast]
  · refine ⟨.double w f n.fraction.length, .decimal w f n.fraction.length, ?_, rfl, rfl, ?_, ?_⟩
    · simp only [numberKind?, hw, hf, Option.map_some, Nat.mod_eq_of_lt hplaces]
    · have hfraction := toList_decimalText_of_numeral? w hf n.fraction_digits hnil
      obtain ⟨d, ds, hds⟩ := List.exists_cons_of_ne_nil hnil
      rw [Expr.text, hfraction, hwhole, Numeral.text, hds, pointed]
    · rw [Expr.number?, val_of_numeral? hw, val_of_numeral? hf, Numeral.number, fractionNumber_eq,
        Int.cast_natCast, Int.cast_natCast]

/-- Others mean nothing, unless a nought stands in front. -/
theorem numberKind?_eq_none_of_not_isLegal {n : Numeral} (h : ¬ n.IsLegal)
    (hnought : ¬ (1 < n.whole.length ∧ n.whole.head? = some '0')) :
    numberKind? n.whole n.fraction = none := by
  unfold numberKind?
  rcases hw : numeral? n.whole with _ | w
  · rfl
  have hwhole := exists_numeral?_iff.mp ⟨w, hw⟩
  rcases hf : numeral? n.fraction with _ | f
  · rcases hfraction : n.fraction with _ | ⟨d, ds⟩ <;> rw [hfraction] at hf
    · cases hf
    · simp only [hf, Option.map_none]
  · exact absurd ⟨hnought, hwhole, exists_numeral?_iff.mp ⟨f, hf⟩⟩ h

/-- A number ends where neither a point nor more of a word follows. -/
theorem EndsNumber.of_head? (fraction : List Char) {rest : List Char}
    (hrest : ∀ c ∈ rest.head?, c ≠ '.' ∧ isWordPart c = false) : EndsNumber fraction rest where
  word := by
    cases rest with
    | nil => rfl
    | cons c rest =>
      rw [List.takeWhile_cons, (hrest c rfl).2]
      rfl
  point _ := fractionDigits_of_head?_ne fun hpoint => (hrest '.' hpoint).1 rfl

theorem ignorable_digit {c : Char} (hc : c.isDigit = true) (text : List Char) :
    ignorable (c :: text) = 0 := by
  have hblank : ¬ isBlank c = true := by
    intro hblank
    rcases isBlank_iff.mp hblank with rfl | rfl | rfl | rfl <;> cases hc
  have hslash : ¬ (c = '/' ∧ text.head? = some '/') := by
    rintro ⟨rfl, -⟩
    cases hc
  rw [ignorable, ignorableFrom, if_neg hblank, if_neg hslash]

end Lexeme

namespace Cursor

/-- Where no word goes on and no point follows, a number is taken as a whole, and
it is found unless it is refused. -/
theorem next_numeral (limits : Limits) (n : Numeral) {rest : List Char}
    (hrest : Lexeme.EndsNumber n.fraction rest) (position : Position) :
    (next limits ⟨n.text ++ rest, position⟩).1 =
      if 1 < n.whole.length ∧ n.whole.head? = some '0' then
        .error ⟨position, .invalidNumber (String.ofList n.text)⟩
      else
        match Lexeme.numberKind? n.whole n.fraction with
        | some kind =>
          .ok ⟨kind, String.ofList n.text, position, position.advance n.text⟩
        | none => .error ⟨position, .invalidNumber (String.ofList n.text)⟩ := by
  have hread : Lexeme.read limits (n.text ++ rest) = Lexeme.ofNumber (n.text ++ rest) ∧
      ignorable (n.text ++ rest) = 0 := by
    obtain ⟨d, ds, hds⟩ := List.exists_cons_of_ne_nil n.whole_ne_nil
    have hdigit := n.whole_digits d (hds ▸ List.mem_cons_self)
    rw [Numeral.text, hds]
    exact ⟨Lexeme.read_digits hdigit, Lexeme.ignorable_digit hdigit _⟩
  have hnumber : Lexeme.ofNumber (n.text ++ rest) = _ :=
    Lexeme.ofNumber_digits n.whole_digits n.fraction_digits hrest
  rw [next, hread.2, List.drop_zero, hread.1, hnumber, ← Numeral.text, List.take_left]
  by_cases hnought : 1 < n.whole.length ∧ n.whole.head? = some '0'
  · rw [if_pos hnought, if_pos hnought]
    rfl
  · rw [if_neg hnought, if_neg hnought]
    cases Lexeme.numberKind? n.whole n.fraction <;> rfl

end Cursor

/-- **Numbers lose nothing.** Let a number stand where neither a point nor more of
a word follows, with places that can be counted in 32 bits. It is found as a token
just if it is legal, and otherwise refused as a whole. The token is parsed as a
literal that is written like it, and that stands for the very number that is
written. -/
theorem numerals_lose_nothing (limits : Limits) (n : Numeral)
    (hplaces : n.fraction.length < 4294967296) (rest : List Char)
    (hrest : ∀ c ∈ rest.head?, c ≠ '.' ∧ isWordPart c = false) (position : Position) :
    let result := (Cursor.next limits ⟨n.text ++ rest, position⟩).1
    ((∃ t, result = .ok t ∧ t.kind.isNumber = true) ↔ n.IsLegal) ∧
      (¬ n.IsLegal → result = .error ⟨position, .invalidNumber (String.ofList n.text)⟩) ∧
      ∀ t, result = .ok t → t.lexeme = String.ofList n.text ∧
        ∃ e, (∀ ts, Yields (parseLevel .primary (t :: ts)) e ts) ∧ e.text = t.lexeme ∧
          e.number? = some n.number := by
  intro result
  have hends : Lexeme.EndsNumber n.fraction rest := .of_head? n.fraction hrest
  have hresult := Cursor.next_numeral limits n hends position
  change result = _ at hresult
  by_cases hlegal : n.IsLegal
  · obtain ⟨k, e, hkind, hnumber, hliteral, htext, hvalue⟩ :=
      Lexeme.exists_literal_of_isLegal hlegal hplaces
    rw [if_neg hlegal.nought, hkind] at hresult
    refine ⟨iff_of_true ⟨_, hresult, hnumber⟩ hlegal, absurd hlegal, fun t ht => ?_⟩
    cases hresult.symm.trans ht
    refine ⟨rfl, e, fun ts => ?_, String.toList_inj.mp ?_, hvalue⟩
    · have hstop : k ≠ .stop := by
        rintro rfl
        cases hliteral
      exact yields_primary_literal (.cons rfl hstop .nil) hliteral
    · rw [htext, String.toList_ofList]
  · have herror : result = .error ⟨position, .invalidNumber (String.ofList n.text)⟩ := by
      rw [hresult]
      by_cases hnought : 1 < n.whole.length ∧ n.whole.head? = some '0'
      · rw [if_pos hnought]
      · rw [if_neg hnought, Lexeme.numberKind?_eq_none_of_not_isLegal hlegal hnought]
    rw [herror]
    refine ⟨iff_of_false ?_ hlegal, fun _ => rfl, ?_⟩
    · rintro ⟨t, ⟨⟩, -⟩
    · rintro t ⟨⟩

/-- Noughts in front of a fraction are kept, next to the greatest whole number. -/
def greatestAndSeven : Numeral :=
  ⟨"9223372036854775807".toList, "007".toList, by decide, List.all_eq_true.mp rfl,
    List.all_eq_true.mp rfl⟩

/-- The least number that is out of range. -/
def leastOutOfRange : Numeral :=
  ⟨"9223372036854775808".toList, [], by decide, List.all_eq_true.mp rfl, List.all_eq_true.mp rfl⟩

/-- A nought too much. -/
def twoNoughts : Numeral :=
  ⟨"00".toList, "5".toList, by decide, List.all_eq_true.mp rfl, List.all_eq_true.mp rfl⟩

theorem numerals_lose_nothing_extremes :
    (∃ t e, (Cursor.next {} ⟨"9223372036854775807.007;".toList, ⟨1, 1⟩⟩).1 = .ok t ∧
        t.lexeme = "9223372036854775807.007" ∧ (∀ ts, Yields (parseLevel .primary (t :: ts)) e ts) ∧
        e.text = "9223372036854775807.007" ∧
        e.number? = some (9223372036854775807 + 7 / 1000)) ∧
      (Cursor.next {} ⟨"9223372036854775808 ".toList, ⟨1, 1⟩⟩).1 =
        .error ⟨⟨1, 1⟩, .invalidNumber "9223372036854775808"⟩ ∧
      (Cursor.next {} ⟨"00.5".toList, ⟨1, 1⟩⟩).1 = .error ⟨⟨1, 1⟩, .invalidNumber "00.5"⟩ := by
  have hend : ∀ c : Char, isWordPart c = false → c ≠ '.' →
      ∀ c' ∈ [c].head?, c' ≠ '.' ∧ isWordPart c' = false := by
    rintro c hpart hpoint c' ⟨⟩
    exact ⟨hpoint, hpart⟩
  refine ⟨?_, ?_, ?_⟩
  · obtain ⟨hlegal, -, hliteral⟩ :=
      numerals_lose_nothing {} greatestAndSeven (by decide) [';'] (hend ';' rfl (by decide)) ⟨1, 1⟩
    obtain ⟨t, ht, -⟩ := hlegal.mpr ⟨by decide, by decide, by decide⟩
    obtain ⟨hlexeme, e, hyields, htext, hnumber⟩ := hliteral t ht
    refine ⟨t, e, ht, hlexeme, hyields, htext.trans hlexeme, hnumber.trans ?_⟩
    have hwhole : Nat.ofDigitChars 10 greatestAndSeven.whole 0 = 9223372036854775807 := by decide
    have hfraction : Nat.ofDigitChars 10 greatestAndSeven.fraction 0 = 7 := by decide
    have hplaces : greatestAndSeven.fraction.length = 3 := rfl
    rw [Numeral.number, fractionNumber_eq, hwhole, hfraction, hplaces]
    norm_num
  · obtain ⟨-, hrefused, -⟩ :=
      numerals_lose_nothing {} leastOutOfRange (by decide) [' '] (hend ' ' rfl (by decide)) ⟨1, 1⟩
    exact hrefused fun h => absurd h.whole (by decide)
  · obtain ⟨-, hrefused, -⟩ := numerals_lose_nothing {} twoNoughts (by decide) [] nofun ⟨1, 1⟩
    exact hrefused fun h => absurd (by decide) h.nought

end ClassLang
