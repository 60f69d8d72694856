import ClassLang.Proofs.Scanner.TokenRoundTrip

/-!
# Limits on length are a filter

How much belongs to a lexeme and what it means does not depend on the limits on
names and strings (`Lexeme.length_read`). All that they do is to refuse a name or
a string that is too long when it has been read as a whole
(`Lexeme.meaning_of_limits`). So a scan within narrow limits is a scan within
wide ones that stops at the first token that is too long for the narrow ones
(`withinLimits`).
-/

namespace ClassLang

/-- Other limits allow whatever these allow. -/
instance : LE Limits := ⟨fun a b => a.identifier ≤ b.identifier ∧ a.string ≤ b.string⟩

/-- What is wrong with a name or a string that is longer than allowed. Nothing
else can be too long. -/
def Kind.excess? (limits : Limits) : Kind → Option ScanFault
  | identifier name =>
    if name.length ≤ limits.identifier then none
    else some (.identifierTooLong name.length limits.identifier)
  | string value =>
    if value.length ≤ limits.string then none else some (.stringTooLong value.length limits.string)
  | _ => none

/-- The error of a token that is longer than allowed. It is reported where the
token starts. -/
def Token.excess? (limits : Limits) (t : Token) : Option ScanError :=
  (t.kind.excess? limits).map fun fault => { position := t.start, fault }

/-- The tokens, if none of them is longer than allowed, or else the error of the
first one that is. -/
def withinLimits (limits : Limits) (ts : List Token) : Except ScanError (List Token) :=
  match ts.findSome? (Token.excess? limits) with
  | none => .ok ts
  | some e => .error e

/-- What fits into limits fits into wider ones. -/
theorem Kind.excess?_eq_none_of_le {limits limits' : Limits} (hle : limits ≤ limits') {k : Kind}
    (h : k.excess? limits = none) : k.excess? limits' = none := by
  cases k with
  | identifier name =>
    have hlength : name.length ≤ limits.identifier := by simpa [excess?] using h
    exact if_pos (Nat.le_trans hlength hle.1)
  | string value =>
    have hlength : value.length ≤ limits.string := by simpa [excess?] using h
    exact if_pos (Nat.le_trans hlength hle.2)
  | _ => rfl

/-- The first token decides, or else the others do. -/
theorem withinLimits_cons (limits : Limits) (t : Token) (ts : List Token) :
    withinLimits limits (t :: ts) =
      (t.excess? limits).elim ((withinLimits limits ts).map (t :: ·)) .error := by
  rw [withinLimits, List.findSome?_cons, withinLimits]
  rcases t.excess? limits with _ | e
  · rcases ts.findSome? (Token.excess? limits) with _ | e <;> rfl
  · rfl

/-- All tokens are kept just if each of them is short enough. -/
theorem withinLimits_eq_ok_iff {limits : Limits} {ts : List Token} :
    withinLimits limits ts = .ok ts ↔ ∀ t ∈ ts, t.kind.excess? limits = none := by
  have hnone : ts.findSome? (Token.excess? limits) = none ↔
      ∀ t ∈ ts, t.kind.excess? limits = none := by
    simp [Token.excess?]
  rw [← hnone, withinLimits]
  rcases ts.findSome? (Token.excess? limits) with _ | e <;> simp

/-! ## One lexeme -/

namespace Lexeme

variable (limits : Limits) {limits' : Limits} {k : Kind}

/-- Limits have nothing to do with how much belongs to a lexeme. -/
theorem length_read (limits' : Limits) (text : List Char) :
    (read limits text).length = (read limits' text).length := by
  cases text with
  | nil => rfl
  | cons c rest =>
    simp only [read]
    split
    · rfl
    split
    · rfl
    split
    · rfl
    · rfl

theorem ofString_of_limits {rest : List Char} (h : (ofString limits' rest).meaning = .ok k) :
    (ofString limits rest).meaning = (k.excess? limits).elim (.ok k) .error := by
  dsimp only [ofString] at h ⊢
  rcases hbody : (stringBody rest).2 with _ | value <;> rw [hbody] at h
  · cases h
  · dsimp only at h ⊢
    split at h <;> cases h
    rw [Kind.excess?, String.length_ofList]
    split <;> rfl

theorem ofWord_of_limits {text : List Char} (h : (ofWord limits' text).meaning = .ok k) :
    (ofWord limits text).meaning = (k.excess? limits).elim (.ok k) .error := by
  dsimp only [ofWord] at h ⊢
  rcases hword : Keyword.ofSpelling? (String.ofList (text.takeWhile isWordPart)) with _ | word <;>
    rw [hword] at h
  · dsimp only at h ⊢
    split at h <;> cases h
    rw [Kind.excess?, String.length_ofList]
    split <;> rfl
  · cases h
    rfl

theorem excess?_of_number {text : List Char} (h : (ofNumber text).meaning = .ok k) :
    k.excess? limits = none := by
  obtain ⟨whole, rest, hkind, -⟩ := numberKind?_of_meaning h
  obtain ⟨w, rfl, -⟩ | ⟨w, f, rfl, -⟩ := number_of_numberKind? hkind <;> rfl

/-- What a lexeme means within some limits it means within others, unless it is
too long for these. -/
theorem meaning_of_limits {text : List Char} (h : (read limits' text).meaning = .ok k) :
    (read limits text).meaning = (k.excess? limits).elim (.ok k) .error := by
  cases text with
  | nil =>
    cases h
    rfl
  | cons c rest =>
    rw [read] at h ⊢
    split at h
    · next hquote =>
      rw [if_pos hquote]
      exact ofString_of_limits limits h
    next hquote =>
    rw [if_neg hquote]
    split at h
    · next hdigit =>
      rw [if_pos hdigit, h, excess?_of_number limits h]
      rfl
    next hdigit =>
    rw [if_neg hdigit]
    split at h
    · next hstart =>
      rw [if_pos hstart]
      exact ofWord_of_limits limits h
    next hstart =>
    rw [if_neg hstart]
    rcases hmark : Mark.ofChar? c with _ | mark <;> rw [hmark] at h
    · cases h
    · obtain ⟨m, rfl⟩ := mark_of_meaning h
      exact h

end Lexeme

/-! ## One call -/

namespace Cursor

variable (limits : Limits) {limits' : Limits} {c : Cursor} {t : Token}

/-- Limits have nothing to do with where the next call goes on. -/
theorem rest_next (limits' : Limits) (c : Cursor) :
    (c.next limits).2 = (c.next limits').2 := by
  dsimp only [next]
  rw [Lexeme.length_read limits limits']

/-- The token that a call finds within some limits it finds within others, or it
reports that it is too long for these. -/
theorem next_of_limits (ht : (c.next limits').1 = .ok t) :
    (c.next limits).1 = (t.excess? limits).elim (.ok t) .error := by
  dsimp only [next] at ht ⊢
  split at ht
  · next k hmeaning =>
    cases ht
    rw [Lexeme.meaning_of_limits limits hmeaning, Lexeme.length_read limits limits', Token.excess?]
    rcases k.excess? limits with _ | fault <;> rfl
  · cases ht

/-- A reserved word is found, however narrow the limits are. -/
theorem next_keyword {word : Keyword} {rest : List Char}
    (htext : c.rest.drop (ignorable c.rest) = word.spelling.toList ++ rest)
    (hrest : rest.takeWhile isWordPart = []) :
    ∃ t, (c.next limits).1 = .ok t ∧ t.kind = .keyword word ∧ t.lexeme = word.spelling := by
  rw [next, htext, Lexeme.read_keyword word hrest]
  dsimp only
  rw [List.take_left, String.ofList_toList]
  exact ⟨_, rfl, rfl, rfl⟩

/-! ## All tokens -/

/-- A scan within some limits is one within others, unless a token is too long
for these. -/
theorem tokens_of_limits {ts : List Token} (h : c.tokens limits' = .ok ts) :
    c.tokens limits = withinLimits limits ts := by
  induction ts generalizing c with
  | nil =>
    obtain ⟨t, ts', -, hts, -⟩ := tokens_eq_ok h
    cases hts
  | cons t ts ih =>
    obtain ⟨t, ts', ht, hts, hmore⟩ := tokens_eq_ok h
    cases hts
    have hcall := next_of_limits limits ht
    rw [withinLimits_cons]
    rcases hexcess : t.excess? limits with _ | e <;> rw [hexcess] at hcall
    · have hnext : c.next limits = (.ok t, (c.next limits').2) :=
        Prod.ext hcall (rest_next limits limits' c)
      obtain ⟨hstop, rfl⟩ | ⟨hstop, hmore⟩ := hmore
      · rw [tokens_of_stop hnext hstop]
        rfl
      · rw [tokens_of_ne_stop hnext hstop, ih hmore]
        rfl
    · exact tokens_of_error hcall

end Cursor

/-- **Limits are a filter.** What can be scanned within some limits can be
scanned within wider ones, with the same tokens. And where wider limits give
tokens, these limits give the same, unless one of the tokens is too long for them:
then they give the error of the first that is. A reserved word is never too
long. -/
theorem limits_only_filter (source : String) (limits limits' : Limits) (hle : limits ≤ limits') :
    (∀ ts, scan limits source = .ok ts → scan limits' source = .ok ts) ∧
      (∀ ts, scan limits' source = .ok ts → scan limits source = withinLimits limits ts) ∧
      ∀ (c : Cursor) (word : Keyword) (rest : List Char),
        c.rest.drop (ignorable c.rest) = word.spelling.toList ++ rest →
        rest.takeWhile isWordPart = [] →
          ∃ t, (c.next limits).1 = .ok t ∧ t.kind = .keyword word ∧ t.lexeme = word.spelling := by
  refine ⟨fun ts h => ?_, fun ts h => Cursor.tokens_of_limits limits h,
    fun c word rest htext hrest => Cursor.next_keyword limits htext hrest⟩
  -- Tokens that were found within limits are none that these limits refuse.
  have hshort : ∀ t ∈ ts, t.kind.excess? limits = none :=
    withinLimits_eq_ok_iff.mp ((Cursor.tokens_of_limits limits h).symm.trans h)
  have hfilter : scan limits' source = withinLimits limits' ts := Cursor.tokens_of_limits limits' h
  rw [hfilter, withinLimits_eq_ok_iff]
  exact fun t ht => Kind.excess?_eq_none_of_le hle (hshort t ht)

/-- A reserved word, a string of one character, which is escaped, and a name. -/
def shortText : String := "if \"\\\"\" ab"

/-- Its tokens. -/
def shortTokens : List Token :=
  [⟨.keyword .ifWord, "if", ⟨1, 1⟩, ⟨1, 3⟩⟩, ⟨.string "\"", "\"\\\"\"", ⟨1, 4⟩, ⟨1, 8⟩⟩,
    ⟨.identifier "ab", "ab", ⟨1, 9⟩, ⟨1, 11⟩⟩, .endAt ⟨1, 11⟩]

theorem scan_shortText : scan ⟨2, 1⟩ shortText = .ok shortTokens := by
  have hword : (Cursor.ofString shortText).next ⟨2, 1⟩
      = (.ok shortTokens[0], ⟨[' ', '"', '\\', '"', '"', ' ', 'a', 'b'], ⟨1, 3⟩⟩) := rfl
  have hstring : Cursor.next ⟨2, 1⟩ ⟨[' ', '"', '\\', '"', '"', ' ', 'a', 'b'], ⟨1, 3⟩⟩
      = (.ok shortTokens[1], ⟨[' ', 'a', 'b'], ⟨1, 8⟩⟩) := rfl
  have hname : Cursor.next ⟨2, 1⟩ ⟨[' ', 'a', 'b'], ⟨1, 8⟩⟩
      = (.ok shortTokens[2], ⟨[], ⟨1, 11⟩⟩) := rfl
  rw [scan, Cursor.tokens_of_ne_stop hword (by decide),
    Cursor.tokens_of_ne_stop hstring (by decide), Cursor.tokens_of_ne_stop hname (by decide),
    Cursor.tokens_of_stop rfl rfl]
  rfl

/-- Wider limits change nothing. Within narrower ones the name is too long. The
reserved word is not, and of the string only the lexeme is longer than allowed. -/
theorem limits_only_filter_shortText :
    scan {} shortText = .ok shortTokens ∧
      scan ⟨1, 1⟩ shortText = .error ⟨⟨1, 9⟩, .identifierTooLong 2 1⟩ := by
  have hwider := limits_only_filter shortText ⟨2, 1⟩ {} ⟨by decide, by decide⟩
  have hnarrower := limits_only_filter shortText ⟨1, 1⟩ ⟨2, 1⟩ ⟨by decide, by decide⟩
  exact ⟨hwider.1 _ scan_shortText, hnarrower.2.1 _ scan_shortText⟩

end ClassLang
