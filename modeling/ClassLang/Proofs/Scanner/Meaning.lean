import ClassLang.Proofs.Scanner.Spelling

/-!
# What a lexeme can mean

The other direction of reading tokens back from their spelling: which tokens a
lexeme can mean (`Lexeme.isRead_of_read`). Names are names and no longer than
allowed, numbers are not negative, and a fraction has as many digits as it has
places. There is one lemma for each of the ways in which the reader goes. The
count of places is kept in 32 bits. So it is right only for texts of less than
2 ^ 32 characters, and there what is read can be written
(`Kind.IsRead.isWritable`).

Whatever the text, only at its end the end is read (`read_ne_stop`).
-/

namespace ClassLang

namespace Lexeme

variable {limits : Limits} {k : Kind}

/-! ## Strings, marks and words -/

theorem string_of_meaning {rest : List Char} (h : (ofString limits rest).meaning = .ok k) :
    ∃ value : String, k = .string value ∧ value.length ≤ limits.string := by
  dsimp only [ofString] at h
  split at h
  · cases h
  · next value _ =>
    split at h
    · next hlength =>
      cases h
      exact ⟨_, rfl, by rwa [String.length_ofList]⟩
    · cases h

theorem mark_of_meaning {mark : Mark} {rest : List Char} (h : (ofMark mark rest).meaning = .ok k) :
    ∃ m : Mark, k = .mark m := by
  unfold ofMark at h
  split at h <;> cases h <;> exact ⟨_, rfl⟩

/-- A word is reserved, or it is a name. -/
theorem word_of_meaning {c : Char} {rest : List Char} (hstart : isWordStart c = true)
    (h : (ofWord limits (c :: rest)).meaning = .ok k) :
    (∃ word : Keyword, k = .keyword word) ∨
      ∃ name : String, k = .identifier name ∧ Kind.IsName name ∧
        name.length ≤ limits.identifier := by
  dsimp only [ofWord] at h
  split at h
  · cases h
    exact .inl ⟨_, rfl⟩
  · next hnone =>
    split at h
    · next hlength =>
      cases h
      refine .inr ⟨_, rfl, ⟨⟨c, rest.takeWhile isWordPart, ?_, hstart, ?_⟩,
        fun word hword => ?_⟩, ?_⟩
      · rw [String.toList_ofList, List.takeWhile_cons, isWordPart_of_isWordStart hstart]
        rfl
      · exact fun d hd => List.all_eq_true.mp List.all_takeWhile d hd
      · rw [Keyword.ofSpelling?_eq_some_iff.mpr hword] at hnone
        cases hnone
      · rwa [String.length_ofList]
    · cases h

/-! ## Numbers -/

/-- The number that digits denote is smaller than the power of ten with so many
noughts. -/
theorem ofDigitChars_lt {digits : List Char} (hdigits : ∀ c ∈ digits, c.isDigit = true)
    (init : Nat) : Nat.ofDigitChars 10 digits init < (init + 1) * tenTo digits.length := by
  induction digits generalizing init with
  | nil => simp [Nat.ofDigitChars, tenTo]
  | cons c digits ih =>
    obtain ⟨hc, hdigits⟩ := List.forall_mem_cons.mp hdigits
    have hdigit : c.toNat - '0'.toNat + 1 ≤ 10 := by
      have h9 : '9'.toNat = 57 := rfl
      have h0 : '0'.toNat = 48 := rfl
      have := (Char.isDigit_iff_toNat.mp hc).2
      omega
    rw [Nat.ofDigitChars_cons, List.length_cons]
    calc Nat.ofDigitChars 10 digits (10 * init + (c.toNat - '0'.toNat))
        < (10 * init + (c.toNat - '0'.toNat) + 1) * tenTo digits.length := ih hdigits _
      _ ≤ ((init + 1) * 10) * tenTo digits.length := Nat.mul_le_mul_right _ (by omega)
      _ = (init + 1) * tenTo (digits.length + 1) := by rw [Nat.mul_assoc, Nat.mul_comm 10]; rfl

theorem val_of_numeral? {digits : List Char} {value : Integer} (h : numeral? digits = some value) :
    value.val = (Nat.ofDigitChars 10 digits 0 : Nat) :=
  Integer.ofInt?_eq_some_iff.mp h

theorem nonneg_of_numeral? {digits : List Char} {value : Integer}
    (h : numeral? digits = some value) : 0 ≤ value.val := by
  rw [val_of_numeral? h]
  exact Int.natCast_nonneg _

/-- The digits of a number mean a whole number, or one with a fraction. -/
theorem number_of_numberKind? {whole fraction : List Char}
    (h : numberKind? whole fraction = some k) :
    (∃ w : Integer, k = .integer w ∧ 0 ≤ w.val) ∨
      ∃ w f : Integer, k = .double w f (fraction.length % 4294967296) ∧ 0 ≤ w.val ∧
        fraction ≠ [] ∧ numeral? fraction = some f := by
  unfold numberKind? at h
  split at h
  · next w hw =>
    cases h
    exact .inl ⟨w, rfl, nonneg_of_numeral? hw⟩
  · next w hw hne =>
    obtain ⟨f, hf, rfl⟩ := Option.map_eq_some_iff.mp h
    exact .inr ⟨w, f, rfl, nonneg_of_numeral? hw, hne, hf⟩
  · cases h

theorem fractionDigits_digits (text : List Char) : ∀ c ∈ fractionDigits text, c.isDigit = true := by
  unfold fractionDigits
  split
  · exact fun c hc => List.all_eq_true.mp List.all_takeWhile c hc
  · exact fun c hc => by cases hc

theorem length_fractionDigits_le (text : List Char) :
    (fractionDigits text).length ≤ text.length := by
  unfold fractionDigits
  split
  · exact Nat.le_succ_of_le (List.takeWhile_prefix _).length_le
  · exact Nat.zero_le _

theorem numberKind?_of_meaning {text : List Char} (h : (ofNumber text).meaning = .ok k) :
    ∃ whole rest : List Char, numberKind? whole (fractionDigits rest) = some k ∧
      rest.length ≤ text.length := by
  unfold ofNumber at h
  extract_lets whole fraction length trailing at h
  split at h
  · cases h
  · dsimp only at h
    split at h
    · next kind hkind =>
      cases h
      exact ⟨whole, _, hkind, by rw [List.length_drop]; exact Nat.sub_le _ _⟩
    · cases h

/-! ## All lexemes -/

end Lexeme

/-- A token that a text of so many characters can have. The count of places of
a fraction is kept in 32 bits. -/
inductive Kind.IsRead (limits : Limits) (n : Nat) : Kind → Prop where
  /-- a reserved word -/
  | keyword (word : Keyword) : IsRead limits n (.keyword word)
  /-- a mark -/
  | mark (m : Mark) : IsRead limits n (.mark m)
  /-- a name within the limit -/
  | identifier {name : String} : IsName name → name.length ≤ limits.identifier →
    IsRead limits n (.identifier name)
  /-- a whole number without a sign -/
  | integer {w : Integer} : 0 ≤ w.val → IsRead limits n (.integer w)
  /-- a number with a fraction, which digits in the text denote -/
  | double {w f : Integer} {fraction : List Char} : 0 ≤ w.val → fraction ≠ [] →
    (∀ c ∈ fraction, c.isDigit = true) → fraction.length ≤ n →
    Lexeme.numeral? fraction = some f →
    IsRead limits n (.double w f (fraction.length % 4294967296))
  /-- a string within the limit -/
  | string {value : String} : value.length ≤ limits.string → IsRead limits n (.string value)

namespace Kind.IsRead

variable {limits : Limits} {n m : Nat} {k : Kind}

theorem mono (h : k.IsRead limits n) (hle : n ≤ m) : k.IsRead limits m := by
  cases h with
  | keyword word => exact .keyword word
  | mark m => exact .mark m
  | identifier hname hlength => exact .identifier hname hlength
  | integer hw => exact .integer hw
  | double hw hne hdigits hlength hf => exact .double hw hne hdigits (Nat.le_trans hlength hle) hf
  | string hlength => exact .string hlength

/-- As long as places can be counted, what is read can be written. -/
theorem isWritable (h : k.IsRead limits n) (hn : n < 4294967296) : k.IsWritable limits := by
  cases h with
  | keyword | mark => trivial
  | identifier hname hlength => exact ⟨hname, hlength⟩
  | integer hw => exact hw
  | string hlength => exact hlength
  | double hw hne hdigits hlength hf =>
    have hplaces := Nat.lt_of_le_of_lt hlength hn
    have hbound := Lexeme.ofDigitChars_lt hdigits 0
    rw [Nat.mod_eq_of_lt hplaces]
    refine ⟨hw, Lexeme.nonneg_of_numeral? hf, List.length_pos_iff.mpr hne, hplaces, ?_⟩
    rw [Lexeme.val_of_numeral? hf, Int.toNat_natCast]
    rwa [Nat.zero_add, Nat.one_mul] at hbound

end Kind.IsRead

namespace Lexeme

variable {limits : Limits} {k : Kind}

/-- **What is read** is one of these tokens. -/
theorem isRead_of_read {c : Char} {rest : List Char}
    (h : (read limits (c :: rest)).meaning = .ok k) : k.IsRead limits (c :: rest).length := by
  rw [read] at h
  split at h
  · obtain ⟨value, rfl, hvalue⟩ := string_of_meaning h
    exact .string hvalue
  split at h
  · obtain ⟨whole, text, hkind, htext⟩ := numberKind?_of_meaning h
    obtain ⟨w, rfl, hw⟩ | ⟨w, f, rfl, hw, hne, hf⟩ := number_of_numberKind? hkind
    · exact .integer hw
    · exact .double hw hne (fractionDigits_digits text)
        (Nat.le_trans (length_fractionDigits_le text) htext) hf
  split at h
  · next hstart =>
    obtain ⟨word, rfl⟩ | ⟨name, rfl, hname, hlength⟩ := word_of_meaning hstart h
    · exact .keyword word
    · exact .identifier hname hlength
  split at h
  · obtain ⟨m, rfl⟩ := mark_of_meaning h
    exact .mark m
  · cases h

/-- Only at the end of the text the end is read. -/
theorem read_ne_stop (c : Char) (rest : List Char) :
    (read limits (c :: rest)).meaning ≠ .ok .stop := by
  intro h
  cases isRead_of_read h

end Lexeme

end ClassLang
