import ClassLang.Proofs.Scanner.Accounting

/-!
# Tokens and rows

A token ends in the row in which it starts, or further down by the line feeds
in its lexeme. Names, numbers and marks have none.

Inside a string the reader stands in front of a character or of an escape
(`IsInside`), and looks there for the closing quote and for the end of the row
(`BreaksOff`). What stands behind a backslash it takes without a look. So a line
feed there does not end the string, and it is the only one that can stand in a
lexeme.
-/

namespace ClassLang

/-! ## The inside of a string -/

/-- Characters and escapes of a string, up to a place where the reader looks
for its end. -/
inductive IsInside : List Char → Prop where
  /-- the opening quote is all that was read -/
  | nil : IsInside []
  /-- a character that stands for itself -/
  | plain {c : Char} {rest : List Char} : c ≠ '\n' → c ≠ '"' → c ≠ '\\' → IsInside rest →
    IsInside (c :: rest)
  /-- a backslash and whatever stands behind it -/
  | escape (c : Char) {rest : List Char} : IsInside rest → IsInside ('\\' :: c :: rest)

/-- There is no more of a string that is still open: the text ends, or the row
does where the reader looks for that. -/
inductive BreaksOff : List Char → Prop where
  /-- the text ends -/
  | text : BreaksOff []
  /-- the text ends behind a backslash -/
  | backslash : BreaksOff ['\\']
  /-- the row ends -/
  | row (rest : List Char) : BreaksOff ('\n' :: rest)

/-- Only behind a backslash there is a line feed, as far as the closing quote. -/
theorem IsInside.feed {inside : List Char} (h : IsInside inside) {before behind : List Char}
    (hfeed : inside ++ ['"'] = before ++ '\n' :: behind) : ∃ front, before = front ++ ['\\'] := by
  induction h generalizing before with
  | nil =>
    have hmem : '\n' ∈ ['"'] := by
      rw [← List.nil_append ['"'], hfeed]
      exact List.mem_append_right _ List.mem_cons_self
    cases List.mem_singleton.mp hmem
  | plain hc _ _ _ ih =>
    rcases before with _ | ⟨b, before⟩
    · exact absurd (List.cons.inj hfeed).1 hc
    · obtain ⟨front, rfl⟩ := ih (List.cons.inj hfeed).2
      exact ⟨b :: front, rfl⟩
  | escape c _ ih =>
    rcases before with _ | ⟨b, _ | ⟨b', before⟩⟩
    · cases (List.cons.inj hfeed).1
    · obtain ⟨rfl, -⟩ := List.cons.inj hfeed
      exact ⟨[], rfl⟩
    · obtain ⟨front, rfl⟩ := ih (List.cons.inj (List.cons.inj hfeed).2).2
      exact ⟨b :: b' :: front, rfl⟩

namespace Lexeme

/-- Behind an opening quote the reader comes to a closing one, or the string
breaks off. -/
theorem exists_inside (text : List Char) :
    ∃ inside rest, text = inside ++ rest ∧ IsInside inside ∧
      (BreaksOff rest ∨ ∃ behind, rest = '"' :: behind) := by
  induction hlength : text.length using Nat.strongRecOn generalizing text with
  | ind n ih =>
  rcases text with _ | ⟨c, text⟩
  · exact ⟨[], [], rfl, .nil, .inl .text⟩
  rw [List.length_cons] at hlength
  by_cases hfeed : c = '\n'
  · exact ⟨[], c :: text, rfl, .nil, .inl (hfeed ▸ .row text)⟩
  by_cases hquote : c = '"'
  · exact ⟨[], c :: text, rfl, .nil, .inr ⟨text, by rw [hquote]⟩⟩
  by_cases hbackslash : c = '\\'
  · subst hbackslash
    rcases text with _ | ⟨escaped, text⟩
    · exact ⟨[], ['\\'], rfl, .nil, .inl .backslash⟩
    · rw [List.length_cons] at hlength
      obtain ⟨inside, rest, rfl, hinside, hrest⟩ := ih text.length (by omega) text rfl
      exact ⟨'\\' :: escaped :: inside, rest, rfl, .escape escaped hinside, hrest⟩
  · obtain ⟨inside, rest, rfl, hinside, hrest⟩ := ih text.length (by omega) text rfl
    exact ⟨c :: inside, rest, rfl, .plain hfeed hquote hbackslash hinside, hrest⟩

/-- What was read of a string counts, and what it leads to decides. -/
theorem stringBody_inside {inside : List Char} (h : IsInside inside) (rest : List Char) :
    (stringBody (inside ++ rest)).1 = inside.length + (stringBody rest).1 ∧
      ((stringBody (inside ++ rest)).2 = none ↔ (stringBody rest).2 = none) := by
  induction h with
  | nil => exact ⟨(Nat.zero_add _).symm, .rfl⟩
  | plain hfeed hquote hbackslash _ ih =>
    rw [List.cons_append, stringBody_plain hfeed hquote hbackslash, List.length_cons, ih.1,
      Option.map_eq_none_iff, ih.2]
    exact ⟨by omega, .rfl⟩
  | escape c _ ih =>
    rw [List.cons_append, List.cons_append, stringBody_escape, List.length_cons, List.length_cons,
      ih.1, Option.map_eq_none_iff, ih.2]
    exact ⟨by omega, .rfl⟩

theorem stringBody_of_breaksOff {rest : List Char} (h : BreaksOff rest) :
    (stringBody rest).2 = none := by
  cases h with
  | text => rfl
  | backslash => rfl
  | row rest => rw [stringBody.eq_def]; rfl

variable {limits : Limits} {k : Kind}

/-- **A string is unterminated** just if it breaks off behind something that
was read of it. -/
theorem meaning_quote_eq_unterminated_iff (limits : Limits) {text : List Char} :
    (read limits ('"' :: text)).meaning = .error .unterminatedString ↔
      ∃ inside rest, text = inside ++ rest ∧ IsInside inside ∧ BreaksOff rest := by
  have hread : (read limits ('"' :: text)).meaning = .error .unterminatedString ↔
      (stringBody text).2 = none := by
    rw [read, if_pos rfl, ofString]
    rcases (stringBody text).2 with _ | value
    · exact iff_of_true rfl rfl
    · dsimp only
      split <;> simp
  rw [hread]
  constructor
  · intro hnone
    obtain ⟨inside, rest, rfl, hinside, hrest | ⟨behind, rfl⟩⟩ := exists_inside text
    · exact ⟨inside, rest, rfl, hinside, hrest⟩
    · rw [(stringBody_inside hinside _).2, stringBody_quote] at hnone
      cases hnone
  · rintro ⟨inside, rest, rfl, hinside, hrest⟩
    exact (stringBody_inside hinside rest).2.mpr (stringBody_of_breaksOff hrest)

/-- A string is what stands between the quotes, and these. -/
theorem inside_of_meaning {text : List Char}
    (h : (ofString limits text).meaning = .ok k) :
    ∃ inside, IsInside inside ∧
      ('"' :: text).take (ofString limits text).length = '"' :: (inside ++ ['"']) := by
  obtain ⟨inside, rest, rfl, hinside, hrest | ⟨behind, rfl⟩⟩ := exists_inside text
  · have hnone := (stringBody_inside hinside rest).2.mpr (stringBody_of_breaksOff hrest)
    dsimp only [ofString] at h
    rw [hnone] at h
    cases h
  · refine ⟨inside, hinside, ?_⟩
    have hlength : (ofString limits (inside ++ '"' :: behind)).length = inside.length + 1 + 1 := by
      rw [ofString, (stringBody_inside hinside _).1, stringBody_quote]
    rw [hlength, List.take_succ_cons, List.take_append, List.take_of_length_le (Nat.le_succ _),
      Nat.add_sub_cancel_left, List.take_succ_cons, List.take_zero]

/-! ## Line feeds in lexemes -/

theorem feed_notMem_takeWhile {p : Char → Bool} (hp : p '\n' = false) (text : List Char) :
    '\n' ∉ text.takeWhile p := by
  intro hmem
  rw [List.all_eq_true.mp List.all_takeWhile _ hmem] at hp
  cases hp

/-- No line feed in a fraction and the point in front of it. -/
theorem feed_notMem_fraction (text : List Char) :
    '\n' ∉ text.take (if (fractionDigits text).isEmpty then 0
      else (fractionDigits text).length + 1) := by
  unfold fractionDigits
  split
  · next rest =>
    split
    · simp
    · rw [List.take_succ_cons, ← List.prefix_iff_eq_take.mp (List.takeWhile_prefix _)]
      exact List.not_mem_cons_of_ne_of_not_mem (by decide) (feed_notMem_takeWhile rfl rest)
  · simp

/-- No line feed in a number, if nothing behind it spoils it. -/
theorem feed_notMem_number {text : List Char} (h : (ofNumber text).meaning = .ok k) :
    '\n' ∉ text.take (ofNumber text).length := by
  unfold ofNumber at h ⊢
  extract_lets whole fraction length trailing at h
  extract_lets
  split at h
  · cases h
  · next hplain =>
    rw [if_neg hplain, List.take_add, ← List.prefix_iff_eq_take.mp (List.takeWhile_prefix _),
      List.mem_append]
    exact not_or_intro (feed_notMem_takeWhile rfl text) (feed_notMem_fraction _)

theorem feed_notMem_mark {c : Char} {mark : Mark} (hmark : Mark.ofChar? c = some mark)
    (rest : List Char) : '\n' ∉ (c :: rest).take (ofMark mark rest).length := by
  have hc : '\n' ≠ c := by
    rintro rfl
    cases hmark
  unfold ofMark
  split
  · next _ hequal =>
    obtain ⟨behind, rfl⟩ := List.head?_eq_some_iff.mp hequal
    simp [hc]
  · simp [hc]

/-- A lexeme with a line feed is a string. -/
theorem string_of_feed {text : List Char} (h : (read limits text).meaning = .ok k)
    (hfeed : '\n' ∈ text.take (read limits text).length) :
    (∃ value, k = .string value) ∧
      ∃ inside, IsInside inside ∧
        text.take (read limits text).length = '"' :: (inside ++ ['"']) := by
  rcases text with _ | ⟨c, rest⟩
  · simp at hfeed
  by_cases hquote : c = '"'
  · subst hquote
    obtain ⟨value, rfl, -⟩ := string_of_meaning h
    exact ⟨⟨value, rfl⟩, inside_of_meaning h⟩
  exfalso
  by_cases hdigit : c.isDigit = true
  · rw [read, if_neg hquote, if_pos hdigit] at h hfeed
    exact feed_notMem_number h hfeed
  by_cases hstart : isWordStart c = true
  · rw [read, if_neg hquote, if_neg hdigit, if_pos hstart] at hfeed
    dsimp only [ofWord] at hfeed
    rw [← List.prefix_iff_eq_take.mp (List.takeWhile_prefix _)] at hfeed
    exact feed_notMem_takeWhile rfl _ hfeed
  rw [read, if_neg hquote, if_neg hdigit, if_neg hstart] at h hfeed
  rcases hmark : Mark.ofChar? c with _ | mark
  · rw [hmark] at h
    cases h
  · rw [hmark] at hfeed
    exact feed_notMem_mark hmark rest hfeed

end Lexeme

/-! ## The tokens of a text -/

namespace Cursor

variable {limits : Limits} {c : Cursor}

/-- What a number of calls answer, each of them answers. -/
theorem exists_call_of_mem_steps {n : Nat} {result : Except ScanError Token}
    (h : result ∈ (c.steps limits n).1) : ∃ m, ((after limits m c).next limits).1 = result := by
  induction n generalizing c with
  | zero => cases h
  | succ n ih =>
    rcases List.mem_cons.mp h with rfl | h
    · exact ⟨0, rfl⟩
    · obtain ⟨m, hm⟩ := ih h
      exact ⟨m + 1, hm⟩

/-- Each token of a text is the answer of a call. -/
theorem exists_call_of_mem_scan {source : String} {ts : List Token}
    (h : scan limits source = .ok ts) {t : Token} (ht : t ∈ ts) :
    ∃ m, ((after limits m (.ofString source)).next limits).1 = .ok t := by
  have horigin : (Cursor.ofString source).position = .behind [] := rfl
  obtain ⟨n, -, ts', ⟨hscan, hsteps, -⟩ | ⟨e, hscan, -⟩⟩ := exists_scanEnds limits horigin
  · obtain rfl : ts = ts' := Except.ok.inj (h.symm.trans hscan)
    exact exists_call_of_mem_steps (hsteps ▸ List.mem_map_of_mem ht)
  · cases h.symm.trans hscan

/-- A token ends as many rows behind its start as there are line feeds in its
lexeme. -/
theorem row_of_next {read : List Char} (hread : c.position = .behind read) {t : Token}
    (ht : (c.next limits).1 = .ok t) :
    t.stop.row = t.start.row + t.lexeme.toList.count '\n' := by
  obtain ⟨gap, word, htakes⟩ := takes_next limits hread
  obtain ⟨hlexeme, hstart, hstop⟩ := htakes.token t ht
  rw [hlexeme, hstart, hstop]
  dsimp only [Position.behind]
  rw [List.count_append]
  omega

/-- A token with a line feed is a string. -/
theorem string_of_next {t : Token} (ht : (c.next limits).1 = .ok t)
    (hfeed : '\n' ∈ t.lexeme.toList) :
    (∃ value, t.kind = .string value) ∧
      ∃ inside, IsInside inside ∧ t.lexeme.toList = '"' :: (inside ++ ['"']) := by
  dsimp only [next] at ht
  split at ht
  · next kind hmeaning =>
    cases ht
    rw [String.toList_ofList] at hfeed ⊢
    exact Lexeme.string_of_feed hmeaning hfeed
  · cases ht

end Cursor

/-- **Rows of tokens.** A token ends as many rows behind its start as there are
line feeds in its lexeme. Each of these stands behind a backslash, and the token
is a string. A string is reported as unterminated just if it breaks off behind
something that was read of it. -/
theorem rows_of_tokens (limits : Limits) :
    (∀ (source : String) (ts : List Token), scan limits source = .ok ts → ∀ t ∈ ts,
      t.stop.row = t.start.row + t.lexeme.toList.count '\n' ∧
        ∀ before behind, t.lexeme.toList = before ++ '\n' :: behind →
          (∃ value, t.kind = .string value) ∧ ∃ front, before = front ++ ['\\']) ∧
      ∀ (c : Cursor) (text : List Char), c.rest.drop (ignorable c.rest) = '"' :: text →
        ((∃ start, (c.next limits).1 = .error ⟨start, .unterminatedString⟩) ↔
          ∃ inside rest, text = inside ++ rest ∧ IsInside inside ∧ BreaksOff rest) := by
  refine ⟨fun source ts hscan t ht => ?_, fun c text htext => ?_⟩
  · obtain ⟨m, hcall⟩ := Cursor.exists_call_of_mem_scan hscan ht
    obtain ⟨read, -, hread⟩ := Cursor.exists_read_after limits source m
    refine ⟨Cursor.row_of_next hread hcall, fun before behind hlexeme => ?_⟩
    have hmem : '\n' ∈ t.lexeme.toList := by simp [hlexeme]
    obtain ⟨hvalue, inside, hinside, hquotes⟩ := Cursor.string_of_next hcall hmem
    refine ⟨hvalue, ?_⟩
    rcases before with _ | ⟨quote, before⟩
    · cases hquotes.symm.trans hlexeme
    · obtain ⟨front, rfl⟩ := hinside.feed (List.cons.inj (hquotes.symm.trans hlexeme)).2
      exact ⟨quote :: front, rfl⟩
  · rw [← Lexeme.meaning_quote_eq_unterminated_iff limits, ← htext, Cursor.next]
    rcases (Lexeme.read limits (c.rest.drop (ignorable c.rest))).meaning with fault | kind
    · simp
    · simp

/-- A string that goes on behind the end of a row, since a backslash stands
there. -/
def escapedFeed : String := "\"a\\\n\""

/-- Its only token besides the end. -/
def escapedFeedToken : Token where
  kind := .string "a\\\n"
  lexeme := escapedFeed
  start := ⟨1, 1⟩
  stop := ⟨2, 2⟩

theorem scan_escapedFeed : scan {} escapedFeed = .ok [escapedFeedToken, .endAt ⟨2, 2⟩] := by
  have hnext : (Cursor.ofString escapedFeed).next {} = (.ok escapedFeedToken, ⟨[], ⟨2, 2⟩⟩) := rfl
  rw [scan, Cursor.tokens_of_ne_stop hnext (by decide), Cursor.tokens_of_stop rfl rfl]
  rfl

/-- The string ends in the second row. A string that the row ends is reported. -/
theorem rows_of_tokens_escapedFeed :
    (scan {} escapedFeed = .ok [escapedFeedToken, .endAt ⟨2, 2⟩] ∧
      escapedFeedToken.stop.row = escapedFeedToken.start.row + escapedFeed.toList.count '\n') ∧
      ∃ start, ((Cursor.ofString "\"a\n\"").next {}).1 = .error ⟨start, .unterminatedString⟩ := by
  refine ⟨⟨scan_escapedFeed, ?_⟩, ?_⟩
  · exact ((rows_of_tokens {}).1 _ _ scan_escapedFeed _ List.mem_cons_self).1
  · refine ((rows_of_tokens {}).2 (.ofString "\"a\n\"") _ rfl).mpr ?_
    exact ⟨['a'], ['\n', '"'], rfl, .plain (by decide) (by decide) (by decide) .nil, .row _⟩

/-- Not every token ends in the row in which it starts. -/
theorem not_all_tokens_in_one_row :
    ¬ ∀ (limits : Limits) (source : String) (ts : List Token), scan limits source = .ok ts →
      ∀ t ∈ ts, t.start.row = t.stop.row := by
  intro h
  have hrow := h {} escapedFeed _ scan_escapedFeed escapedFeedToken List.mem_cons_self
  cases hrow

end ClassLang
