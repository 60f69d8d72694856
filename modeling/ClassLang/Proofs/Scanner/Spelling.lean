import ClassLang.Token.Scan
import ClassLang.Token.Spelling

/-!
# Tokens are read back from their spelling

Behind the canonical text of a token stands nothing or blank space
(`Separated`). Then reading takes just that text and finds the token
(`read_spelling`). There is one lemma for each of the ways in which the reader
goes: words, numbers, strings and marks.
-/

namespace ClassLang

/-- Nothing follows, or blank space. -/
def Separated (rest : List Char) : Prop := ∀ c ∈ rest.head?, isBlank c = true

theorem separated_nil : Separated [] := by simp [Separated]

theorem separated_cons {c : Char} {rest : List Char} :
    Separated (c :: rest) ↔ isBlank c = true := by
  simp [Separated]

theorem isBlank_iff {c : Char} : isBlank c = true ↔ c = ' ' ∨ c = '\t' ∨ c = '\r' ∨ c = '\n' := by
  simp [isBlank, or_assoc]

namespace Separated

variable {rest : List Char} {p : Char → Bool}

/-- What holds of no blank holds of no character that follows. -/
theorem takeWhile_eq_nil (h : Separated rest) (hp : ∀ c, isBlank c = true → p c = false) :
    rest.takeWhile p = [] := by
  rcases rest with _ | ⟨c, rest⟩
  · rfl
  · rw [List.takeWhile_cons, hp c (separated_cons.mp h)]
    rfl

theorem head?_ne (h : Separated rest) {c : Char} (hc : isBlank c = false) :
    rest.head? ≠ some c := by
  intro heq
  have := h c heq
  rw [hc] at this
  cases this

end Separated

theorem isWordPart_of_isBlank (c : Char) (h : isBlank c = true) : isWordPart c = false := by
  rcases isBlank_iff.mp h with rfl | rfl | rfl | rfl <;> decide

/-- A word ends where what follows does not go on with it. -/
theorem takeWhile_append_of_nil {p : Char → Bool} {text rest : List Char}
    (htext : ∀ c ∈ text, p c = true) (hrest : rest.takeWhile p = []) :
    (text ++ rest).takeWhile p = text := by
  rw [List.takeWhile_append_of_pos htext, hrest, List.append_nil]

/-! ## Words -/

theorem isDigit_of_isWordStart {c : Char} (h : isWordStart c = true) : c.isDigit = false := by
  rw [isWordStart, Bool.or_eq_true, beq_iff_eq] at h
  rcases h with h | rfl
  · have hletter : (decide ('A'.val ≤ c.val ∧ c.val ≤ 'Z'.val) ||
        decide ('a'.val ≤ c.val) && decide (c.val ≤ 'z'.val)) = true := h
    simp only [Bool.or_eq_true, Bool.and_eq_true, decide_eq_true_eq,
      UInt32.le_iff_toNat_le] at hletter
    rw [← Bool.not_eq_true, Char.isDigit_iff_toNat]
    -- All letters come behind all digits.
    have hA : 'A'.val.toNat = 65 := rfl
    have ha : 'a'.val.toNat = 97 := rfl
    have h9 : '9'.toNat = 57 := rfl
    have hc : c.toNat = c.val.toNat := rfl
    omega
  · decide

theorem ne_quote_of_isWordStart {c : Char} (h : isWordStart c = true) : c ≠ '"' := by
  rintro rfl
  cases h

namespace Lexeme

variable {limits : Limits} {rest : List Char}

/-- A word is read as if it stood alone. -/
theorem read_word {c : Char} {tail : List Char} (hstart : isWordStart c = true)
    (hparts : ∀ d ∈ c :: tail, isWordPart d = true) (hrest : rest.takeWhile isWordPart = []) :
    read limits (c :: tail ++ rest) = ofWord limits (c :: tail) := by
  have hdigit : ¬ c.isDigit = true := by rw [isDigit_of_isWordStart hstart]; rintro ⟨⟩
  have halone := takeWhile_append_of_nil hparts List.takeWhile_nil
  rw [List.append_nil] at halone
  rw [List.cons_append, read, if_neg (ne_quote_of_isWordStart hstart), if_neg hdigit,
    if_pos hstart, ofWord, ofWord, ← List.cons_append, takeWhile_append_of_nil hparts hrest,
    halone]

/-- A keyword is read where no word goes on behind it. -/
theorem read_keyword (word : Keyword) (hrest : rest.takeWhile isWordPart = []) :
    read limits (word.spelling.toList ++ rest) =
      { length := word.spelling.toList.length, meaning := .ok (.keyword word) } := by
  obtain ⟨c, tail, hspelling, hstart, hparts⟩ : ∃ c tail, word.spelling.toList = c :: tail ∧
      isWordStart c = true ∧ (c :: tail).all isWordPart = true := by
    cases word <;> exact ⟨_, _, rfl, by decide, by decide⟩
  rw [hspelling, read_word hstart (List.all_eq_true.mp hparts) hrest, ← hspelling]
  cases word <;> rfl

/-- A name within the limit is read where no word goes on behind it. -/
theorem read_name {name : String} (hname : Kind.IsName name)
    (hlength : name.length ≤ limits.identifier) (hrest : rest.takeWhile isWordPart = []) :
    read limits (name.toList ++ rest) =
      { length := name.toList.length, meaning := .ok (.identifier name) } := by
  obtain ⟨⟨c, tail, htext, hstart, htail⟩, hreserved⟩ := hname
  have hparts : ∀ d ∈ c :: tail, isWordPart d = true :=
    List.forall_mem_cons.mpr ⟨isWordPart_of_isWordStart hstart, htail⟩
  have hnone : Keyword.ofSpelling? name = none := by
    rcases hword : Keyword.ofSpelling? name with _ | word
    · rfl
    · exact absurd (Keyword.ofSpelling?_eq_some_iff.mp hword) (hreserved word)
  have halone := takeWhile_append_of_nil hparts List.takeWhile_nil
  rw [List.append_nil, ← htext] at halone
  rw [htext, read_word hstart hparts hrest, ← htext, ofWord, halone, String.ofList_toList, hnone]
  dsimp only
  rw [String.length_toList, if_pos hlength]

/-! ## Marks -/

/-- A mark is read where a blank stands behind it. -/
theorem read_mark (m : Mark) (hrest : Separated rest) :
    read limits (m.spelling.toList ++ rest) =
      { length := m.spelling.toList.length, meaning := .ok (.mark m) } := by
  have hequal : rest.head? ≠ some '=' := hrest.head?_ne (by decide)
  have hread : ∀ (c : Char) (mark : Mark) (text : List Char), c ≠ '"' → c.isDigit = false →
      isWordStart c = false → Mark.ofChar? c = some mark →
      read limits (c :: text) = ofMark mark text := by
    intro c mark text hquote hdigit hstart hmark
    rw [read, if_neg hquote, hdigit, hstart, if_neg Bool.false_ne_true,
      if_neg Bool.false_ne_true, hmark]
  have hshort : ∀ mark : Mark, ofMark mark rest = { length := 1, meaning := .ok (.mark mark) } := by
    intro mark
    rw [ofMark]
    split
    · next heq => exact absurd heq hequal
    · rfl
  cases m
  case lessEqual => exact hread '<' .less _ (by decide) (by decide) (by decide) rfl
  case greaterEqual => exact hread '>' .greater _ (by decide) (by decide) (by decide) rfl
  case equalEqual => exact hread '=' .equal _ (by decide) (by decide) (by decide) rfl
  case bangEqual => exact hread '!' .bang _ (by decide) (by decide) (by decide) rfl
  all_goals
    refine Eq.trans (hread _ _ _ ?_ ?_ ?_ rfl) (hshort _) <;> decide

/-! ## Strings -/

theorem stringBody_quote (rest : List Char) : stringBody ('"' :: rest) = (1, some []) := by
  rw [stringBody.eq_def]
  rfl

theorem stringBody_escape (c : Char) (rest : List Char) :
    stringBody ('\\' :: c :: rest) =
      ((stringBody rest).1 + 2, (stringBody rest).2.map (unescape c ++ ·)) := by
  rw [stringBody.eq_def]
  rfl

theorem stringBody_plain {c : Char} (hfeed : c ≠ '\n') (hquote : c ≠ '"') (hbackslash : c ≠ '\\')
    (rest : List Char) :
    stringBody (c :: rest) = ((stringBody rest).1 + 1, (stringBody rest).2.map (c :: ·)) := by
  rw [stringBody.eq_def]
  dsimp only
  rw [if_neg hfeed, if_neg hquote, if_neg hbackslash]

/-- A character of a string is read back from how it is written there. -/
theorem stringBody_escaped_cons (c : Char) (rest : List Char) :
    stringBody (escaped c ++ rest) =
      ((escaped c).length + (stringBody rest).1, (stringBody rest).2.map (c :: ·)) := by
  have hescape : ∀ d, unescape d = [c] → stringBody ('\\' :: d :: rest) =
      (2 + (stringBody rest).1, (stringBody rest).2.map (c :: ·)) := by
    intro d hd
    rw [stringBody_escape, hd, Nat.add_comm]
    rfl
  -- Four characters are escaped, any other one stands for itself.
  by_cases hquote : c = '"'
  · subst hquote
    exact hescape '"' rfl
  by_cases hbackslash : c = '\\'
  · subst hbackslash
    exact hescape '\\' rfl
  by_cases hfeed : c = '\n'
  · subst hfeed
    exact hescape 'n' rfl
  by_cases htab : c = '\t'
  · subst htab
    exact hescape 't' rfl
  have hplain : escaped c = [c] := by
    rw [escaped, if_neg hquote, if_neg hbackslash, if_neg hfeed, if_neg htab]
  rw [hplain, List.singleton_append, stringBody_plain hfeed hquote hbackslash, Nat.add_comm]
  rfl

/-- Inside a string, reading undoes the escapes. -/
theorem stringBody_escaped (value rest : List Char) :
    stringBody (value.flatMap escaped ++ '"' :: rest) =
      ((value.flatMap escaped).length + 1, some value) := by
  induction value with
  | nil => exact stringBody_quote rest
  | cons c value ih =>
    rw [List.flatMap_cons, List.append_assoc, stringBody_escaped_cons, ih, List.length_append,
      Nat.add_assoc]
    rfl

/-- A string within the limit is read between its quotes. -/
theorem read_string {value : String} (hlength : value.length ≤ limits.string) :
    read limits ((stringLiteral value).toList ++ rest) =
      { length := (stringLiteral value).toList.length, meaning := .ok (.string value) } := by
  have htext : (stringLiteral value).toList ++ rest
      = '"' :: (value.toList.flatMap escaped ++ '"' :: rest) := by
    simp [stringLiteral]
  rw [htext, read, if_pos rfl, ofString, stringBody_escaped]
  dsimp only
  rw [String.length_toList, if_pos hlength, String.ofList_toList]
  simp [stringLiteral]

/-! ## Numbers -/

theorem isDigit_of_mem_toDigits (n : Nat) : ∀ c ∈ Nat.toDigits 10 n, c.isDigit = true :=
  fun _ h => Nat.isDigit_of_mem_toDigits (by decide) (by decide) h

/-- A number that is not nought starts with another digit. -/
theorem head?_toDigits_ne {n : Nat} (hn : 0 < n) : (Nat.toDigits 10 n).head? ≠ some '0' := by
  induction n using Nat.strongRecOn with
  | ind n ih =>
    rcases Nat.lt_or_ge n 10 with hlt | hge
    · have hdigit : ∀ m < 10, 0 < m → Nat.digitChar m ≠ '0' := by decide
      rw [Nat.toDigits_of_lt_base hlt]
      intro h
      exact hdigit n hlt hn (Option.some.inj h)
    · rw [Nat.toDigits_of_base_le (by decide) hge, List.head?_append]
      obtain ⟨c, cs, hcs⟩ :=
        List.exists_cons_of_ne_nil (Nat.toDigits_ne_nil (b := 10) (n := n / 10))
      have ih := ih (n / 10) (Nat.div_lt_self hn (by decide)) (Nat.div_pos hge (by decide))
      rw [hcs] at ih ⊢
      exact ih

/-- Digits of a number have no superfluous nought in front. -/
theorem toDigits_no_leading_zero (n : Nat) :
    ¬ (1 < (Nat.toDigits 10 n).length ∧ (Nat.toDigits 10 n).head? = some '0') := by
  rintro ⟨hlength, hhead⟩
  rcases Nat.eq_zero_or_pos n with rfl | hn
  · rw [Nat.toDigits_zero] at hlength
    exact absurd hlength (by decide)
  · exact head?_toDigits_ne hn hhead

theorem numeral?_of_ofDigitChars {digits : List Char} {value : Integer} (hvalue : 0 ≤ value.val)
    (h : Nat.ofDigitChars 10 digits 0 = value.val.toNat) : numeral? digits = some value := by
  rw [numeral?, h, Int.toNat_of_nonneg hvalue, Integer.ofInt?_val]

/-- The digits behind a point, with the point. -/
def pointed : List Char → List Char
  | [] => []
  | d :: ds => '.' :: d :: ds

theorem fractionDigits_of_head?_ne (h : rest.head? ≠ some '.') : fractionDigits rest = [] := by
  unfold fractionDigits
  split
  · exact absurd rfl h
  · rfl

theorem fractionDigits_of_separated (hrest : Separated rest) : fractionDigits rest = [] :=
  fractionDigits_of_head?_ne (hrest.head?_ne (by decide))

/-- What stands behind a number does not belong to it: no word goes on there,
and no digits behind a point if there are none yet. -/
structure EndsNumber (fraction rest : List Char) : Prop where
  /-- no word goes on -/
  word : rest.takeWhile isWordPart = []
  /-- no fraction starts -/
  point : fraction = [] → fractionDigits rest = []

theorem EndsNumber.of_separated (fraction : List Char) (hrest : Separated rest) :
    EndsNumber fraction rest :=
  ⟨hrest.takeWhile_eq_nil isWordPart_of_isBlank, fun _ => fractionDigits_of_separated hrest⟩

theorem isWordPart_of_isDigit {c : Char} (h : c.isDigit = true) : isWordPart c = true := by
  simp [isWordPart, Char.isAlphanum, h]

/-- Where no word goes on, no digits do. -/
theorem EndsNumber.digits {fraction : List Char} (h : EndsNumber fraction rest) :
    rest.takeWhile Char.isDigit = [] := by
  cases rest with
  | nil => rfl
  | cons c rest =>
    have hword := h.word
    by_cases hdigit : c.isDigit = true
    · simp [isWordPart_of_isDigit hdigit] at hword
    · simp [hdigit]

/-- A number is read up to what does not belong to it. It is a fault as a whole
if it has a superfluous nought in front or is out of range. -/
theorem ofNumber_digits {whole fraction : List Char} (hwhole : ∀ c ∈ whole, c.isDigit = true)
    (hfraction : ∀ c ∈ fraction, c.isDigit = true) (hrest : EndsNumber fraction rest) :
    ofNumber (whole ++ pointed fraction ++ rest) =
      { length := (whole ++ pointed fraction).length
        meaning :=
          if 1 < whole.length ∧ whole.head? = some '0' then
            .error (.invalidNumber (String.ofList (whole ++ pointed fraction)))
          else
            match numberKind? whole fraction with
            | some kind => .ok kind
            | none => .error (.invalidNumber (String.ofList (whole ++ pointed fraction))) } := by
  have htake : (whole ++ pointed fraction ++ rest).takeWhile Char.isDigit = whole := by
    rw [List.append_assoc, List.takeWhile_append_of_pos hwhole]
    have hnil : (pointed fraction ++ rest).takeWhile Char.isDigit = [] := by
      cases fraction with
      | nil => exact hrest.digits
      | cons d ds => rfl
    rw [hnil, List.append_nil]
  have hdigits : fractionDigits (pointed fraction ++ rest) = fraction := by
    cases fraction with
    | nil => exact hrest.point rfl
    | cons d ds =>
      change (d :: ds ++ rest).takeWhile Char.isDigit = d :: ds
      exact takeWhile_append_of_nil hfraction hrest.digits
  have hlength : (whole.length + if fraction.isEmpty then 0 else fraction.length + 1)
      = (whole ++ pointed fraction).length := by
    cases fraction <;> simp [pointed]
  rw [ofNumber, htake, List.append_assoc, List.drop_left, hdigits, hlength, ← List.append_assoc,
    List.drop_left, hrest.word]
  by_cases hzero : 1 < whole.length ∧ whole.head? = some '0'
  · rw [if_pos (Or.inr hzero), if_pos hzero, List.length_nil, Nat.add_zero, List.take_left]
  · rw [if_neg (not_or.mpr ⟨fun h => h rfl, hzero⟩), if_neg hzero]
    cases numberKind? whole fraction with
    | none => simp only [List.take_left]
    | some k => rfl

theorem ofNumber_of_endsNumber {whole fraction : List Char}
    (hwhole : ∀ c ∈ whole, c.isDigit = true) (hfraction : ∀ c ∈ fraction, c.isDigit = true)
    (hrest : EndsNumber fraction rest)
    (hzero : ¬ (1 < whole.length ∧ whole.head? = some '0')) {k : Kind}
    (hk : numberKind? whole fraction = some k) :
    ofNumber (whole ++ pointed fraction ++ rest) =
      { length := (whole ++ pointed fraction).length, meaning := .ok k } := by
  rw [ofNumber_digits hwhole hfraction hrest, if_neg hzero, hk]

/-- What starts with a digit is read as a number. -/
theorem read_digits {c : Char} {text : List Char} (hdigit : c.isDigit = true) :
    read limits (c :: text) = ofNumber (c :: text) := by
  have hquote : c ≠ '"' := by rintro rfl; cases hdigit
  rw [read, if_neg hquote, if_pos hdigit]

/-- Reading starts a number at the first of its digits. -/
theorem read_toDigits (n : Nat) (text : List Char) :
    read limits (Nat.toDigits 10 n ++ text) = ofNumber (Nat.toDigits 10 n ++ text) := by
  have hdigits := isDigit_of_mem_toDigits n
  obtain ⟨c, cs, hcs⟩ := List.exists_cons_of_ne_nil (Nat.toDigits_ne_nil (b := 10) (n := n))
  rw [hcs] at hdigits ⊢
  exact read_digits (hdigits c (List.mem_cons_self ..))

/-- The text of a number that is not negative has its digits. -/
theorem toList_text {value : Integer} (hvalue : 0 ≤ value.val) :
    value.text.toList = Nat.toDigits 10 value.val.toNat := by
  rw [Integer.text, ← Int.toNat_of_nonneg hvalue]
  exact Nat.toList_repr

theorem numeral?_toDigits {value : Integer} (hvalue : 0 ≤ value.val) :
    numeral? (Nat.toDigits 10 value.val.toNat) = some value :=
  numeral?_of_ofDigitChars hvalue Nat.ofDigitChars_ten_toDigits

/-- A number that is not negative is read from its text, where it ends. -/
theorem read_integer {value : Integer} (hvalue : 0 ≤ value.val) (hrest : EndsNumber [] rest) :
    read limits (value.text.toList ++ rest) =
      { length := value.text.toList.length, meaning := .ok (.integer value) } := by
  have hnumber := ofNumber_of_endsNumber (isDigit_of_mem_toDigits value.val.toNat)
    (by simp) hrest (toDigits_no_leading_zero _) (k := .integer value)
    (by simp only [numberKind?, numeral?_toDigits hvalue])
  rw [pointed, List.append_nil] at hnumber
  rw [toList_text hvalue, read_toDigits, hnumber]

/-- The digits of a fraction, filled up to its places. -/
theorem fraction_digits {fraction : Integer} {places : Nat} (hfraction : 0 ≤ fraction.val)
    (hplaces : 1 ≤ places) (hfits : fraction.val.toNat < tenTo places) :
    ∃ digits : List Char, digits.length = places ∧ (∀ c ∈ digits, c.isDigit = true) ∧
      numeral? digits = some fraction ∧
      ∀ whole : Integer, (decimalText whole fraction places).toList
        = whole.text.toList ++ '.' :: digits := by
  have hlength : (Nat.toDigits 10 fraction.val.toNat).length ≤ places :=
    (Nat.length_toDigits_le_iff (by decide) hplaces).mpr hfits
  refine ⟨(Nat.toDigits 10 fraction.val.toNat).leftpad places '0', ?_, ?_, ?_, ?_⟩
  · rw [List.length_leftpad]
    exact Nat.max_eq_left hlength
  · intro c hc
    rw [List.leftpad, List.mem_append] at hc
    rcases hc with hc | hc
    · rw [List.eq_of_mem_replicate hc]
      decide
    · exact isDigit_of_mem_toDigits _ c hc
  · refine numeral?_of_ofDigitChars hfraction ?_
    rw [List.leftpad, Nat.ofDigitChars_append, Nat.ofDigitChars_replicate_zero, Nat.mul_zero,
      Nat.ofDigitChars_ten_toDigits]
  · intro whole
    have habs : fraction.val.natAbs = fraction.val.toNat := by omega
    rw [decimalText, if_neg (Int.not_lt.mpr hfraction), habs]
    simp

/-- A decimal is read from its text, where no word goes on behind it. -/
theorem read_decimal {whole fraction : Integer} {places : Nat} (hwhole : 0 ≤ whole.val)
    (hfraction : 0 ≤ fraction.val) (hplaces : 1 ≤ places) (hbound : places < 4294967296)
    (hfits : fraction.val.toNat < tenTo places) (hrest : rest.takeWhile isWordPart = []) :
    read limits ((decimalText whole fraction places).toList ++ rest) =
      { length := (decimalText whole fraction places).toList.length
        meaning := .ok (.double whole fraction places) } := by
  obtain ⟨digits, rfl, hdigits, hnumeral, htext⟩ := fraction_digits hfraction hplaces hfits
  obtain ⟨d, ds, rfl⟩ := List.exists_cons_of_length_pos hplaces
  have hkind : numberKind? (Nat.toDigits 10 whole.val.toNat) (d :: ds) =
      some (.double whole fraction (d :: ds).length) := by
    simp only [numberKind?, numeral?_toDigits hwhole, hnumeral, Option.map_some,
      Nat.mod_eq_of_lt hbound]
  have hnumber := ofNumber_of_endsNumber (isDigit_of_mem_toDigits whole.val.toNat) hdigits
    ⟨hrest, by rintro ⟨⟩⟩ (toDigits_no_leading_zero _) hkind
  rw [htext, toList_text hwhole, List.append_assoc, read_toDigits, ← List.append_assoc]
  exact hnumber

end Lexeme

/-! ## All tokens -/

/-- **A token is read back from its spelling.** Behind it may stand nothing or
blank space. -/
theorem read_spelling {limits : Limits} {k : Kind} (hk : k.IsWritable limits) {rest : List Char}
    (hrest : Separated rest) :
    Lexeme.read limits (k.spelling.toList ++ rest) =
      { length := k.spelling.toList.length, meaning := .ok k } := by
  have hword := hrest.takeWhile_eq_nil isWordPart_of_isBlank
  cases k with
  | keyword word => exact Lexeme.read_keyword word hword
  | mark m => exact Lexeme.read_mark m hrest
  | identifier name => exact Lexeme.read_name hk.1 hk.2 hword
  | integer value => exact Lexeme.read_integer hk (.of_separated [] hrest)
  | double whole fraction places =>
    obtain ⟨hwhole, hfraction, hplaces, hbound, hfits⟩ := hk
    exact Lexeme.read_decimal hwhole hfraction hplaces hbound hfits hword
  | string value => exact Lexeme.read_string hk
  | stop => cases hk

end ClassLang
