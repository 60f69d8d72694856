import ClassLang.Proofs.Scanner.Rows

/-!
# Lexemes are as long as they can be

The reader looks behind a lexeme to see whether it goes on: for more of a word,
for an equals sign, for a point with a digit behind it. Where it has ended a
lexeme, it would also have ended it if the text were cut off somewhere behind
(`Lexeme.read_of_cut`). There is one lemma for each of the ways in which it
goes. So what a token means depends on nothing but its lexeme, and the lexeme
with more of the text behind it is not a lexeme.

Cutting the text off does not make anything ignorable either
(`ignorable_of_cut`). A slash is the only lexeme that a comment could start
with.
-/

namespace ClassLang

/-! ## Ignorable text -/

/-- Behind what is skipped there is nothing to skip. -/
theorem ignorable_drop_ignorableFrom (inComment : Bool) (text : List Char) :
    ignorable (text.drop (ignorableFrom inComment text)) = 0 := by
  induction text generalizing inComment with
  | nil => simp [ignorable, ignorableFrom]
  | cons c rest ih =>
    cases inComment with
    | true => exact ih _
    | false =>
      rw [ignorableFrom]
      by_cases hblank : isBlank c = true
      · rw [if_pos hblank]
        exact ih false
      by_cases hslashes : c = '/' ∧ rest.head? = some '/'
      · rw [if_neg hblank, if_pos hslashes]
        exact ih true
      · rw [if_neg hblank, if_neg hslashes, List.drop_zero, ignorable, ignorableFrom,
          if_neg hblank, if_neg hslashes]

/-- Where nothing is skipped, nothing is if the text is cut off. -/
theorem ignorable_of_cut {text text' : List Char} (h : ignorable text = 0)
    (hcut : text' <+: text) : ignorable text' = 0 := by
  obtain ⟨behind, rfl⟩ := hcut
  cases text' with
  | nil => rfl
  | cons c rest =>
    rw [List.cons_append, ignorable, ignorableFrom] at h
    rw [ignorable, ignorableFrom]
    by_cases hblank : isBlank c = true
    · simp [hblank] at h
    by_cases hslashes : c = '/' ∧ rest.head? = some '/'
    · rw [if_neg hblank, if_pos (hslashes.imp_right fun hhead => by simp [hhead])] at h
      cases h
    · rw [if_neg hblank, if_neg hslashes]

namespace Lexeme

variable {limits : Limits} {word rest rest' : List Char} {k : Kind}

/-! ## Words and marks -/

theorem takeWhile_eq_nil_of_cut {p : Char → Bool} (h : rest.takeWhile p = [])
    (hcut : rest' <+: rest) : rest'.takeWhile p = [] := by
  obtain ⟨behind, rfl⟩ := hcut
  cases rest' with
  | nil => rfl
  | cons c rest' =>
    by_cases hc : p c = true
    · simp [hc] at h
    · simp [hc]

/-- What belongs to a class of characters ends where it ends. -/
theorem takeWhile_of_cut {p : Char → Bool} (h : (word ++ rest).takeWhile p = word)
    (hcut : rest' <+: rest) : (word ++ rest').takeWhile p = word := by
  have hword : ∀ c ∈ word, p c = true := by
    rw [← h]
    exact fun c hc => List.all_eq_true.mp List.all_takeWhile c hc
  rw [List.takeWhile_append_of_pos hword, List.append_right_eq_self] at h ⊢
  exact takeWhile_eq_nil_of_cut h hcut

theorem ofWord_of_cut (hlength : (ofWord limits (word ++ rest)).length = word.length)
    (hcut : rest' <+: rest) : ofWord limits (word ++ rest') = ofWord limits (word ++ rest) := by
  have htake : (word ++ rest).takeWhile isWordPart = word := by
    refine List.IsPrefix.eq_of_length ?_ hlength
    exact List.prefix_of_prefix_length_le (List.takeWhile_prefix _) (List.prefix_append ..)
      (Nat.le_of_eq hlength)
  rw [ofWord, ofWord, htake, takeWhile_of_cut htake hcut]

theorem ofMark_of_cut {mark : Mark}
    (hlength : (ofMark mark (word ++ rest)).length = word.length + 1) (hcut : rest' <+: rest) :
    ofMark mark (word ++ rest') = ofMark mark (word ++ rest) := by
  obtain ⟨behind, rfl⟩ := hcut
  cases word with
  | cons c word => rfl
  | nil =>
    -- There is no equals sign that would belong to the mark.
    cases rest' with
    | cons c rest' => rfl
    | nil =>
      unfold ofMark at hlength ⊢
      split at hlength
      · cases hlength
      · next hnone =>
        split
        · next heq => cases heq
        · rfl

/-! ## Strings -/

/-- What is inside of a string and the quote behind it are read alike, whatever
follows. -/
theorem stringBody_closed {inside : List Char} (h : IsInside inside) :
    ∃ value, ∀ rest, stringBody (inside ++ '"' :: rest) = (inside.length + 1, some value) := by
  induction h with
  | nil => exact ⟨[], stringBody_quote⟩
  | @plain c _ hfeed hquote hbackslash _ ih =>
    obtain ⟨value, hvalue⟩ := ih
    refine ⟨c :: value, fun rest => ?_⟩
    rw [List.cons_append, stringBody_plain hfeed hquote hbackslash, hvalue]
    rfl
  | escape c _ ih =>
    obtain ⟨value, hvalue⟩ := ih
    refine ⟨unescape c ++ value, fun rest => ?_⟩
    rw [List.cons_append, List.cons_append, stringBody_escape, hvalue]
    rfl

/-- A string that means something is read alike, whatever follows. -/
theorem ofString_of_meaning (h : (ofString limits (word ++ rest)).meaning = .ok k)
    (hlength : (ofString limits (word ++ rest)).length = word.length + 1) :
    ofString limits (word ++ rest') = ofString limits (word ++ rest) := by
  obtain ⟨inside, hinside, htake⟩ := inside_of_meaning h
  rw [hlength, List.take_succ_cons, List.take_left] at htake
  obtain ⟨-, rfl⟩ := List.cons.inj htake
  obtain ⟨value, hvalue⟩ := stringBody_closed hinside
  simp only [ofString, List.append_assoc, List.singleton_append, hvalue]

/-! ## Numbers -/

theorem EndsNumber.of_prefix {fraction : List Char} (h : EndsNumber fraction rest)
    (hcut : rest' <+: rest) : EndsNumber fraction rest' where
  word := takeWhile_eq_nil_of_cut h.word hcut
  point hnil := by
    obtain ⟨behind, rfl⟩ := hcut
    have hpoint := h.point hnil
    unfold fractionDigits at hpoint ⊢
    split
    · exact takeWhile_eq_nil_of_cut hpoint (List.prefix_append ..)
    · rfl

/-- A text starts with the point and the digits of its fraction, if it has
any. -/
theorem pointed_append_drop (text : List Char) :
    pointed (fractionDigits text) ++ text.drop (if (fractionDigits text).isEmpty then 0
      else (fractionDigits text).length + 1) = text := by
  unfold fractionDigits
  split
  · next rest =>
    rcases hdigits : rest.takeWhile Char.isDigit with _ | ⟨d, ds⟩
    · rfl
    · have hcut : d :: ds <+: rest := hdigits ▸ List.takeWhile_prefix _
      obtain ⟨behind, rfl⟩ := hcut
      simp [pointed]
  · rfl

/-- A number that means something consists of its digits, and ends there. -/
theorem digits_of_meaning {text : List Char} (h : (ofNumber text).meaning = .ok k) :
    ∃ whole fraction rest, text = whole ++ pointed fraction ++ rest ∧
      (∀ c ∈ whole, c.isDigit = true) ∧ (∀ c ∈ fraction, c.isDigit = true) ∧
      EndsNumber fraction rest ∧ ¬ (1 < whole.length ∧ whole.head? = some '0') ∧
      numberKind? whole fraction = some k := by
  unfold ofNumber at h
  extract_lets whole fraction length trailing at h
  split at h
  · cases h
  · next hplain =>
    obtain ⟨htrailing, hzero⟩ := not_or.mp hplain
    obtain ⟨behind, hbehind⟩ : whole <+: text := List.takeWhile_prefix _
    have hdrop : text.drop whole.length = behind := by rw [← hbehind, List.drop_left]
    have hpoint : pointed fraction ++ text.drop length = behind := by
      rw [← List.drop_drop, ← pointed_append_drop behind, ← hdrop]
    refine ⟨whole, fraction, text.drop length, ?_, ?_, fractionDigits_digits _, ⟨?_, ?_⟩, hzero,
      ?_⟩
    · rw [List.append_assoc, hpoint, hbehind]
    · exact fun c hc => List.all_eq_true.mp List.all_takeWhile c hc
    · exact List.length_eq_zero_iff.mp (Decidable.not_not.mp htrailing)
    · intro hnil
      rw [hnil, pointed, List.nil_append] at hpoint
      rw [hpoint, ← hdrop]
      exact hnil
    · dsimp only at h
      split at h
      · next hkind =>
        cases h
        exact hkind
      · cases h

theorem ofNumber_of_cut (h : (ofNumber (word ++ rest)).meaning = .ok k)
    (hlength : (ofNumber (word ++ rest)).length = word.length) (hcut : rest' <+: rest) :
    ofNumber (word ++ rest') = ofNumber (word ++ rest) := by
  obtain ⟨whole, fraction, behind, htext, hwhole, hfraction, hends, hzero, hk⟩ :=
    digits_of_meaning h
  have hread := ofNumber_of_endsNumber hwhole hfraction hends hzero hk
  rw [htext, hread] at hlength
  obtain ⟨rfl, rfl⟩ := List.append_inj htext hlength.symm
  rw [hread]
  exact ofNumber_of_endsNumber hwhole hfraction (hends.of_prefix hcut) hzero hk

/-! ## All lexemes -/

/-- **Reading does not depend on how the text goes on behind the lexeme**: it
may be cut off anywhere. -/
theorem read_of_cut (h : read limits (word ++ rest) = ⟨word.length, .ok k⟩)
    (hcut : rest' <+: rest) : read limits (word ++ rest') = ⟨word.length, .ok k⟩ := by
  have hmeaning : (read limits (word ++ rest)).meaning = .ok k := by rw [h]
  have hlength : (read limits (word ++ rest)).length = word.length := by rw [h]
  rw [← h]
  cases word with
  | nil =>
    cases rest with
    | nil => rw [List.prefix_nil.mp hcut]
    | cons c rest => exact absurd hlength (Nat.ne_of_gt (read_length_pos limits c rest))
  | cons c word =>
    rw [List.cons_append, read] at hmeaning hlength ⊢
    rw [List.cons_append, read]
    by_cases hquote : c = '"'
    · simp only [if_pos hquote] at hmeaning hlength ⊢
      exact ofString_of_meaning hmeaning hlength
    by_cases hdigit : c.isDigit = true
    · simp only [if_neg hquote, if_pos hdigit] at hmeaning hlength ⊢
      rw [← List.cons_append] at hmeaning hlength ⊢
      exact ofNumber_of_cut hmeaning hlength hcut
    by_cases hstart : isWordStart c = true
    · simp only [if_neg hquote, if_neg hdigit, if_pos hstart] at hlength ⊢
      rw [← List.cons_append] at hlength ⊢
      exact ofWord_of_cut hlength hcut
    · simp only [if_neg hquote, if_neg hdigit, if_neg hstart] at hlength ⊢
      cases hmark : Mark.ofChar? c with
      | none => rfl
      | some mark =>
        rw [hmark] at hlength
        exact ofMark_of_cut hlength hcut

theorem length_stringBody_le (text : List Char) : (stringBody text).1 ≤ text.length := by
  fun_induction stringBody text
  case case1 | case2 | case3 | case4 => simp
  case case5 ih | case6 ih => simpa using ih

theorem length_ofMark_le (mark : Mark) (rest : List Char) :
    (ofMark mark rest).length ≤ rest.length + 1 := by
  unfold ofMark
  split
  · next hequal =>
    obtain ⟨behind, rfl⟩ := List.head?_eq_some_iff.mp hequal
    simp
  · simp

/-- A lexeme that means something is all there. -/
theorem length_read_le {text : List Char} (h : (read limits text).meaning = .ok k) :
    (read limits text).length ≤ text.length := by
  cases text with
  | nil => simp [read]
  | cons c rest =>
    rw [read] at h ⊢
    by_cases hquote : c = '"'
    · simp only [if_pos hquote, ofString, List.length_cons]
      exact Nat.succ_le_succ (length_stringBody_le rest)
    by_cases hdigit : c.isDigit = true
    · simp only [if_neg hquote, if_pos hdigit] at h ⊢
      obtain ⟨whole, fraction, behind, htext, hwhole, hfraction, hends, hzero, hk⟩ :=
        digits_of_meaning h
      rw [htext, ofNumber_of_endsNumber hwhole hfraction hends hzero hk]
      simp
    by_cases hstart : isWordStart c = true
    · simp only [if_neg hquote, if_neg hdigit, if_pos hstart, ofWord]
      exact (List.takeWhile_prefix _).length_le
    · simp only [if_neg hquote, if_neg hdigit, if_neg hstart]
      cases Mark.ofChar? c with
      | none => simp
      | some mark => exact length_ofMark_le mark rest

end Lexeme

/-! ## Tokens -/

/-- The token of the same lexeme at another place. -/
def Token.movedTo (t : Token) (position : Position) : Token :=
  { t with start := position, stop := position.advance t.lexeme.toList }

namespace Cursor

variable {limits : Limits} {c : Cursor} {t : Token} {behind : List Char}

/-- A token is the lexeme that was read where the skipped text ends, and
behind it the text goes on. -/
theorem read_of_next (ht : (c.next limits).1 = .ok t) :
    c.rest.drop (ignorable c.rest) = t.lexeme.toList ++ (c.next limits).2.rest ∧
      Lexeme.read limits (t.lexeme.toList ++ (c.next limits).2.rest)
        = ⟨t.lexeme.toList.length, .ok t.kind⟩ := by
  have htext : c.rest.drop (ignorable c.rest) = t.lexeme.toList ++ (c.next limits).2.rest := by
    dsimp only [next] at ht ⊢
    split at ht <;> cases ht
    rw [String.toList_ofList, List.take_append_drop]
  refine ⟨htext, ?_⟩
  rw [← htext]
  dsimp only [next] at ht
  split at ht
  · next hmeaning =>
    cases ht
    rw [String.toList_ofList, List.length_take, Nat.min_eq_left (Lexeme.length_read_le hmeaning),
      ← hmeaning]
  · cases ht

/-- A call finds the same token where the text behind it is cut off. -/
theorem next_of_cut (ht : (c.next limits).1 = .ok t)
    (hcut : behind <+: (c.next limits).2.rest) (position : Position) :
    next limits ⟨t.lexeme.toList ++ behind, position⟩ =
      (.ok (t.movedTo position), ⟨behind, (t.movedTo position).stop⟩) := by
  obtain ⟨htext, hread⟩ := read_of_next ht
  have hskip : ignorable (t.lexeme.toList ++ behind) = 0 := by
    have hnone : ignorable (t.lexeme.toList ++ (c.next limits).2.rest) = 0 := by
      rw [← htext]
      exact ignorable_drop_ignorableFrom false c.rest
    exact ignorable_of_cut hnone ((List.prefix_append_right_inj _).mpr hcut)
  dsimp only [next]
  rw [hskip, List.drop_zero, List.take_zero, Lexeme.read_of_cut hread hcut]
  simp [Token.movedTo]

/-- So does a scan, and goes on behind the token. -/
theorem tokens_of_cut (ht : (c.next limits).1 = .ok t) (hne : t.kind ≠ .stop)
    (hcut : behind <+: (c.next limits).2.rest) (position : Position) :
    tokens limits ⟨t.lexeme.toList ++ behind, position⟩ =
      (tokens limits ⟨behind, (t.movedTo position).stop⟩).map (t.movedTo position :: ·) :=
  tokens_of_ne_stop (next_of_cut ht hcut position) hne

end Cursor

/-- **Maximal munch.** A token that is not the end of the text stands where the
skipped text ends. Its lexeme alone is scanned as that token and the end. The
lexeme with any more of the text behind it is not one token: if it can be
scanned at all, the first token is the same one, so it ends where it ended in
the text. -/
theorem tokens_are_longest (limits : Limits) (c : Cursor) (t : Token)
    (ht : (c.next limits).1 = .ok t) (hne : t.kind ≠ .stop) :
    c.rest.drop (ignorable c.rest) = t.lexeme.toList ++ (c.next limits).2.rest ∧
    scan limits t.lexeme = .ok [t.movedTo .origin, .endAt (t.movedTo .origin).stop] ∧
    ∀ more, more ≠ [] → more <+: (c.next limits).2.rest →
      ∀ t' ts, scan limits (t.lexeme ++ String.ofList more) = .ok (t' :: ts) →
        t' = t.movedTo .origin ∧ t'.lexeme ≠ t.lexeme ++ String.ofList more := by
  refine ⟨(Cursor.read_of_next ht).1, ?_, fun more hmore hcut t' ts hscan => ?_⟩
  · have htokens := Cursor.tokens_of_cut ht hne List.nil_prefix .origin
    have hend : Cursor.tokens limits ⟨[], (t.movedTo .origin).stop⟩
        = .ok [.endAt (t.movedTo .origin).stop] :=
      Cursor.tokens_of_stop (Cursor.next_of_end rfl) rfl
    rw [List.append_nil, hend] at htokens
    exact htokens
  · have htokens := Cursor.tokens_of_cut ht hne hcut .origin
    rw [scan, Cursor.ofString, String.toList_append, String.toList_ofList, htokens] at hscan
    have hfirst : t' = t.movedTo .origin := by
      cases hrest : Cursor.tokens limits ⟨more, (t.movedTo .origin).stop⟩ with
      | error e =>
        rw [hrest] at hscan
        cases hscan
      | ok ts' =>
        rw [hrest] at hscan
        cases hscan
        rfl
    refine ⟨hfirst, fun heq => hmore ?_⟩
    rw [hfirst, Token.movedTo] at heq
    have hlength := congrArg (·.toList.length) heq
    simpa using hlength

/-- A number ends in front of a second point, even if a digit follows. -/
theorem tokens_are_longest_secondPoint :
    scan {} "12.5" =
        .ok [⟨.double ⟨12, by decide⟩ ⟨5, by decide⟩ 1, "12.5", ⟨1, 1⟩, ⟨1, 5⟩⟩, .endAt ⟨1, 5⟩] ∧
      ∀ t' ts, scan {} "12.5.7" = .ok (t' :: ts) → t'.lexeme ≠ "12.5.7" := by
  have hlongest := tokens_are_longest {} ⟨"// 1\n12.5.7".toList, .origin⟩
    ⟨.double ⟨12, by decide⟩ ⟨5, by decide⟩ 1, "12.5", ⟨2, 1⟩, ⟨2, 5⟩⟩ rfl (by decide)
  refine ⟨hlongest.2.1, fun t' ts hscan => ?_⟩
  exact (hlongest.2.2 ".7".toList (by decide) (by decide) t' ts hscan).2

end ClassLang
