import ClassLang.Proofs.Scanner.Written

/-!
# Ignorable text

What can stand between tokens, said without the scanner: blank space, and
comments. A comment ends in front of a line feed, which is blank space, or with
the text (`IsComment`). Gaps are the ignorable texts that more text can follow
(`IsGap`): their comments have the line feed behind them. At the end of a text
the last comment may go without it (`IsIgnorable`).

The scanner skips a gap as a whole, whatever follows it (`IsGap.isSkipped`). And
what it skips at the head of any text is the longest beginning that is ignorable
(`isLongest_ignorable`).
-/

namespace ClassLang

/-- Two slashes, and anything but a line feed behind them. -/
def IsComment (text : List Char) : Prop :=
  ∃ body, '\n' ∉ body ∧ text = '/' :: '/' :: body

/-- Blank space, and comments with the line feed behind them. -/
inductive IsGap : List Char → Prop where
  /-- nothing -/
  | nil : IsGap []
  /-- a blank character, and more -/
  | blank {c : Char} {gap : List Char} : isBlank c = true → IsGap gap → IsGap (c :: gap)
  /-- a comment with its line feed, and more -/
  | comment {comment gap : List Char} : IsComment comment → IsGap gap →
    IsGap (comment ++ '\n' :: gap)

/-- A gap, behind which the text may end with a comment. -/
def IsIgnorable (text : List Char) : Prop :=
  ∃ gap comment, text = gap ++ comment ∧ IsGap gap ∧ (comment = [] ∨ IsComment comment)

/-- The longest beginning of a text that has a property. -/
structure IsLongest (P : List Char → Prop) (text found : List Char) : Prop where
  /-- it has the property -/
  holds : P found
  /-- it is a beginning of the text -/
  begins : found <+: text
  /-- any other beginning with the property is a beginning of it -/
  longest : ∀ other, P other → other <+: text → other <+: found

namespace IsIgnorable

variable {text : List Char}

theorem nil : IsIgnorable [] := ⟨[], [], rfl, .nil, .inl rfl⟩

theorem of_comment (h : IsComment text) : IsIgnorable text := ⟨[], text, rfl, .nil, .inr h⟩

theorem blank {c : Char} (hc : isBlank c = true) (h : IsIgnorable text) :
    IsIgnorable (c :: text) := by
  obtain ⟨gap, last, rfl, hgap, hlast⟩ := h
  exact ⟨c :: gap, last, rfl, .blank hc hgap, hlast⟩

theorem comment {comment : List Char} (hcomment : IsComment comment) (h : IsIgnorable text) :
    IsIgnorable (comment ++ '\n' :: text) := by
  obtain ⟨gap, last, rfl, hgap, hlast⟩ := h
  refine ⟨comment ++ '\n' :: gap, last, ?_, .comment hcomment hgap, hlast⟩
  rw [List.append_assoc, List.cons_append]

end IsIgnorable

/-! ## What is skipped -/

theorem ignorable_blank {c : Char} (hc : isBlank c = true) (text : List Char) :
    ignorable (c :: text) = ignorable text + 1 := by
  rw [ignorable, ignorableFrom, if_pos hc, ignorable]

theorem ignorableFrom_body {body : List Char} (hbody : '\n' ∉ body) (text : List Char) :
    ignorableFrom true (body ++ text) = body.length + ignorableFrom true text := by
  induction body with
  | nil => rw [List.nil_append, List.length_nil, Nat.zero_add]
  | cons c body ih =>
    obtain ⟨hc, hbody⟩ := not_or.mp (mt List.mem_cons.mpr hbody)
    have hinside : (c != '\n') = true := bne_iff_ne.mpr (Ne.symm hc)
    rw [List.cons_append, ignorableFrom, hinside, ih hbody, List.length_cons]
    omega

/-- A comment is skipped, and what is behind it is looked at as the rest of its
row. -/
theorem IsComment.ignorable_append {comment : List Char} (h : IsComment comment)
    (text : List Char) :
    ignorable (comment ++ text) = comment.length + ignorableFrom true text := by
  obtain ⟨body, hbody, rfl⟩ := h
  change ignorableFrom true (('/' :: body) ++ text) + 1 = _
  have hslash : '\n' ∉ '/' :: body := by simpa using hbody
  rw [ignorableFrom_body hslash]
  exact Nat.add_right_comm ('/' :: body).length _ 1

theorem ignorableFrom_lineFeed (text : List Char) :
    ignorableFrom true ('\n' :: text) = ignorable text + 1 := rfl

/-- **A gap is skipped as a whole**, whatever follows it. -/
theorem IsGap.isSkipped {gap : List Char} (h : IsGap gap) : IsSkipped gap := by
  intro text
  induction h with
  | nil => exact (Nat.zero_add _).symm
  | blank hc _ ih =>
    rw [List.cons_append, ignorable_blank hc, ih, List.length_cons]
    omega
  | comment hcomment _ ih =>
    rw [List.append_assoc, hcomment.ignorable_append, List.cons_append, ignorableFrom_lineFeed,
      ih, List.length_append, List.length_cons]
    omega

/-- Of an ignorable text nothing is left over. -/
theorem IsIgnorable.length_le {found : List Char} (h : IsIgnorable found) (text : List Char) :
    found.length ≤ ignorable (found ++ text) := by
  obtain ⟨gap, comment, rfl, hgap, hcomment⟩ := h
  rw [List.append_assoc, hgap.isSkipped, List.length_append]
  rcases hcomment with rfl | hcomment
  · exact Nat.le_add_right _ _
  · rw [hcomment.ignorable_append]
    omega

/-- A text falls into what stands before its first line feed, and the rest. -/
theorem exists_row (text : List Char) :
    ∃ row rest, '\n' ∉ row ∧ text = row ++ rest ∧ (rest = [] ∨ ∃ more, rest = '\n' :: more) := by
  induction text with
  | nil => exact ⟨[], [], List.not_mem_nil, rfl, .inl rfl⟩
  | cons c text ih =>
    by_cases hc : c = '\n'
    · subst hc
      exact ⟨[], '\n' :: text, List.not_mem_nil, rfl, .inr ⟨text, rfl⟩⟩
    · obtain ⟨row, rest, hrow, rfl, hrest⟩ := ih
      refine ⟨c :: row, rest, ?_, rfl, hrest⟩
      rw [List.mem_cons, not_or]
      exact ⟨Ne.symm hc, hrow⟩

/-- What is skipped is ignorable. -/
theorem isIgnorable_take (text : List Char) : IsIgnorable (text.take (ignorable text)) := by
  -- Behind a comment the text goes on much later, so the induction is on its length.
  induction hlength : text.length using Nat.strongRecOn generalizing text with
  | ind n ih =>
  rcases text with _ | ⟨c, rest⟩
  · exact .nil
  by_cases hblank : isBlank c = true
  · rw [ignorable_blank hblank, List.take_succ_cons]
    exact (ih rest.length (by simp [← hlength]) rest rfl).blank hblank
  by_cases hslashes : c = '/' ∧ rest.head? = some '/'
  · obtain ⟨rfl, hslash⟩ := hslashes
    obtain ⟨rest, rfl⟩ := List.head?_eq_some_iff.mp hslash
    obtain ⟨body, rest, hbody, rfl, hrest⟩ := exists_row rest
    have hcomment : IsComment ('/' :: '/' :: body) := ⟨body, hbody, rfl⟩
    rw [← List.cons_append, ← List.cons_append, hcomment.ignorable_append,
      List.take_length_add_append]
    rcases hrest with rfl | ⟨more, rfl⟩
    · exact (List.append_nil _).symm ▸ IsIgnorable.of_comment hcomment
    · rw [ignorableFrom_lineFeed, List.take_succ_cons]
      exact .comment hcomment (ih more.length (by simp [← hlength]; omega) more rfl)
  · rw [ignorable, ignorableFrom, if_neg hblank, if_neg hslashes]
    exact .nil

/-- **As much as can be is skipped**: the longest beginning of the text that is
ignorable. -/
theorem isLongest_ignorable (text : List Char) :
    IsLongest IsIgnorable text (text.take (ignorable text)) where
  holds := isIgnorable_take text
  begins := List.take_prefix _ _
  longest := by
    rintro other hother ⟨rest, rfl⟩
    refine List.prefix_of_prefix_length_le (List.prefix_append other rest) (List.take_prefix _ _) ?_
    rw [List.length_take]
    exact Nat.le_min.mpr ⟨hother.length_le rest, by simp⟩

end ClassLang
