import ClassLang.Proofs.Scanner.Ignorable
import ClassLang.Proofs.Scanner.Meaning

/-!
# The scanner accounts for its text

A scanner may be called any number of times, also after an error and at the end
of the text. Each call finds the text that those before it have left, skips what
is ignorable, and takes a piece of the rest, which it reports as a token or with
an error (`Cursor.Takes`). Where it stands follows from what has been read, by
counting rows and columns (`Position.behind`).

As long as there is text, a call takes some of it. So the end of the text is
reported at last, and from then on by every call; and a scan of a whole text
comes to an end. If there is no error, the text consists of the lexemes of the
tokens and of ignorable text between them (`Covers`).
-/

namespace ClassLang

/-! ## Positions -/

/-- The place behind a text: there is one row more than line feeds, and the
characters behind the last line feed count as columns. -/
def Position.behind (text : List Char) : Position where
  row := text.count '\n' + 1
  column := (text.reverse.takeWhile (· != '\n')).length + 1

theorem Position.advance_origin (text : List Char) :
    Position.origin.advance text = .behind text := by
  -- The last character decides, so the induction is from the end.
  rw [← List.reverse_reverse text]
  induction text.reverse with
  | nil => rfl
  | cons c rev ih =>
    rw [List.reverse_cons, advance_append, ih]
    by_cases hc : c = '\n'
    · subst hc
      simp [behind, step]
    · simp [behind, step, hc, bne_iff_ne.mpr hc]

theorem Position.advance_behind (read text : List Char) :
    (Position.behind read).advance text = .behind (read ++ text) := by
  rw [← advance_origin, ← advance_append, advance_origin]

/-! ## One call -/

/-- The token that reports the end of a text at a place. -/
def Token.endAt (p : Position) : Token := { kind := .stop, lexeme := "", start := p, stop := p }

namespace Cursor

variable {limits : Limits} {c : Cursor}

/-- Behind a gap the text is at its end. -/
theorem next_of_end (h : c.rest.drop (ignorable c.rest) = []) :
    c.next limits = (.ok (.endAt (c.position.advance (c.rest.take (ignorable c.rest)))),
      ⟨[], c.position.advance (c.rest.take (ignorable c.rest))⟩) := by
  rw [next, h]
  rfl

theorem length_text_le {text : List Char} (h : c.rest.drop (ignorable c.rest) = text) :
    text.length ≤ c.rest.length := by
  rw [← h, List.length_drop]
  exact Nat.sub_le _ _

/-- Behind a gap there is text. -/
theorem ne_stop_of_text {a : Char} {rest : List Char}
    (h : c.rest.drop (ignorable c.rest) = a :: rest) {t : Token} (ht : (c.next limits).1 = .ok t) :
    t.kind ≠ .stop := by
  intro hstop
  dsimp only [next] at ht
  rw [h] at ht
  split at ht
  · next kind hmeaning =>
    cases ht
    obtain rfl : kind = .stop := hstop
    exact Lexeme.read_ne_stop a rest hmeaning
  · cases ht

/-- What a call of the scanner does that finds `read` to have been read: it
skips a gap and takes a word. -/
structure Takes (limits : Limits) (c : Cursor) (read gap word : List Char) : Prop where
  /-- the text that it finds is what it skips, what it takes and what it leaves -/
  text : c.rest = gap ++ (word ++ (c.next limits).2.rest)
  /-- it comes to stand behind what it takes -/
  position : (c.next limits).2.position = .behind (read ++ gap ++ word)
  /-- it skips as much as can be ignored -/
  skips : IsLongest IsIgnorable c.rest gap
  /-- a token is what it takes, and stands where that stands -/
  token : ∀ t, (c.next limits).1 = .ok t →
    t.lexeme.toList = word ∧ t.start = .behind (read ++ gap) ∧
      t.stop = .behind (read ++ gap ++ word)
  /-- an error is where it starts to take something -/
  error : ∀ e, (c.next limits).1 = .error e → e.position = .behind (read ++ gap)
  /-- it reports the end of the text, and there it is, or it takes something -/
  progress :
    (∃ t, (c.next limits).1 = .ok t ∧ t.kind = .stop ∧ word = [] ∧ (c.next limits).2.rest = []) ∨
      (∀ t, (c.next limits).1 = .ok t → t.kind ≠ .stop) ∧ word ≠ []

/-- Every call skips a gap and takes a word. -/
theorem takes_next (limits : Limits) {read : List Char} (hread : c.position = .behind read) :
    ∃ gap word, c.Takes limits read gap word := by
  let gap := c.rest.take (ignorable c.rest)
  let text := c.rest.drop (ignorable c.rest)
  let word := text.take (Lexeme.read limits text).length
  have hstart : c.position.advance gap = .behind (read ++ gap) := by
    rw [hread, Position.advance_behind]
  have hstop : (c.position.advance gap).advance word = .behind (read ++ gap ++ word) := by
    rw [hstart, Position.advance_behind]
  refine ⟨gap, word, ?_, hstop, isLongest_ignorable c.rest, ?_, ?_, ?_⟩
  · rw [next, List.take_append_drop, List.take_append_drop]
  · intro t ht
    dsimp only [next] at ht
    split at ht <;> cases ht
    exact ⟨String.toList_ofList, hstart, hstop⟩
  · intro e he
    dsimp only [next] at he
    split at he <;> cases he
    exact hstart
  · rcases htext : c.rest.drop (ignorable c.rest) with _ | ⟨a, rest⟩
    · refine .inl ⟨_, congrArg Prod.fst (next_of_end htext), rfl, ?_, ?_⟩
      · change (c.rest.drop _).take _ = []
        rw [htext, List.take_nil]
      · rw [next_of_end htext]
    · refine .inr ⟨fun t => ne_stop_of_text htext, ?_⟩
      have hpos := Lexeme.read_length_pos limits a rest
      change (c.rest.drop _).take (Lexeme.read limits (c.rest.drop _)).length ≠ []
      rw [htext, ← List.length_pos_iff, List.length_take, List.length_cons]
      exact Nat.lt_min.mpr ⟨hpos, Nat.succ_pos _⟩

/-- A call that reports the end of the text leaves none, and would be repeated
by the next one. -/
theorem next_of_stop {t : Token} (ht : (c.next limits).1 = .ok t) (hstop : t.kind = .stop) :
    (c.next limits).2.next limits = (.ok t, (c.next limits).2) := by
  rcases htext : c.rest.drop (ignorable c.rest) with _ | ⟨a, rest⟩
  · rw [next_of_end htext] at ht ⊢
    cases ht
    rfl
  · exact absurd hstop (ne_stop_of_text htext ht)

/-- A call that does not report the end of the text leaves less of it. -/
theorem length_next_lt (hne : ∀ t, (c.next limits).1 = .ok t → t.kind ≠ .stop) :
    (c.next limits).2.rest.length < c.rest.length := by
  rcases htext : c.rest.drop (ignorable c.rest) with _ | ⟨a, rest⟩
  · exact absurd rfl (hne _ (congrArg Prod.fst (next_of_end htext)))
  · have hpos := Lexeme.read_length_pos limits a rest
    change ((c.rest.drop _).drop (Lexeme.read limits (c.rest.drop _)).length).length < _
    rw [htext, List.length_drop]
    exact Nat.lt_of_lt_of_le (Nat.sub_lt (Nat.succ_pos _) hpos) (length_text_le htext)

/-! ## Any number of calls -/

/-- Where the scanner stands after a number of calls. -/
def after (limits : Limits) (n : Nat) (c : Cursor) : Cursor := (steps limits n c).2

theorem after_succ (limits : Limits) (n : Nat) (c : Cursor) :
    after limits (n + 1) c = after limits n (c.next limits).2 := rfl

/-- One more call goes on from where those before it have come to. -/
theorem after_succ' (limits : Limits) (n : Nat) (c : Cursor) :
    after limits (n + 1) c = ((after limits n c).next limits).2 := by
  induction n generalizing c with
  | zero => rfl
  | succ n ih => rw [after_succ, ih, after_succ]

/-- What has been read and what has not been read yet are the text, and the
position tells how much has been read. -/
theorem exists_read_after (limits : Limits) (source : String) (n : Nat) :
    ∃ read, source.toList = read ++ (after limits n (ofString source)).rest ∧
      (after limits n (ofString source)).position = .behind read := by
  induction n with
  | zero => exact ⟨[], rfl, rfl⟩
  | succ n ih =>
    obtain ⟨read, htext, hposition⟩ := ih
    obtain ⟨gap, word, htakes⟩ := takes_next limits hposition
    rw [after_succ']
    refine ⟨read ++ gap ++ word, ?_, htakes.position⟩
    rw [List.append_assoc, List.append_assoc, ← htakes.text, htext]

/-- The end of the text is reported after at most as many other calls as there
are characters. -/
theorem exists_stop (limits : Limits) (c : Cursor) :
    ∃ n ≤ c.rest.length, ∃ t, ((after limits n c).next limits).1 = .ok t ∧ t.kind = .stop := by
  induction hlength : c.rest.length using Nat.strongRecOn generalizing c with
  | ind m ih =>
  by_cases hstop : ∃ t, (c.next limits).1 = .ok t ∧ t.kind = .stop
  · exact ⟨0, Nat.zero_le m, hstop⟩
  · have hne : ∀ t, (c.next limits).1 = .ok t → t.kind ≠ .stop :=
      fun t ht hkind => hstop ⟨t, ht, hkind⟩
    have hlt := length_next_lt hne
    obtain ⟨n, hn, hend⟩ := ih _ (hlength ▸ hlt) (c.next limits).2 rfl
    exact ⟨n + 1, by omega, hend⟩

/-- Once the end of the text is reported, every call reports it, in the same
place. -/
theorem stop_of_le {limits : Limits} {n m : Nat} {t : Token}
    (ht : ((after limits n c).next limits).1 = .ok t) (hstop : t.kind = .stop) (hle : n ≤ m) :
    ((after limits m c).next limits).1 = .ok t := by
  induction hle with
  | refl => exact ht
  | step _ ih => rw [after_succ', next_of_stop ih hstop]

end Cursor

/-! ## The whole text -/

/-- The text consists of the lexemes of tokens, and of ignorable text in front
of each. -/
inductive Covers : List Token → List Char → Prop where
  /-- no tokens, no text -/
  | nil : Covers [] []
  /-- ignorable text, a token, and others behind it -/
  | cons {gap rest : List Char} {t : Token} {ts : List Token} : IsIgnorable gap →
    Covers ts rest → Covers (t :: ts) (gap ++ (t.lexeme.toList ++ rest))

namespace Cursor

variable {limits : Limits} {c : Cursor}

theorem tokens_of_error {e : ScanError} (h : (c.next limits).1 = .error e) :
    c.tokens limits = .error e := by
  rw [tokens]
  split
  · next hnext =>
    rw [hnext] at h
    cases h
    rfl
  · next hnext =>
    rw [hnext] at h
    cases h

/-- A scan that finds tokens finds one and then others, or one that is the end
of the text. -/
theorem tokens_eq_ok {ts : List Token} (h : c.tokens limits = .ok ts) :
    ∃ t ts', (c.next limits).1 = .ok t ∧ ts = t :: ts' ∧
      (t.kind = .stop ∧ ts' = [] ∨ t.kind ≠ .stop ∧ (c.next limits).2.tokens limits = .ok ts') := by
  rcases hresult : (c.next limits).1 with e | t
  · rw [tokens_of_error hresult] at h
    cases h
  have hnext : c.next limits = (.ok t, (c.next limits).2) := Prod.ext hresult rfl
  by_cases hstop : t.kind = .stop
  · rw [tokens_of_stop hnext hstop] at h
    cases h
    exact ⟨t, [], rfl, rfl, .inl ⟨hstop, rfl⟩⟩
  · rw [tokens_of_ne_stop hnext hstop] at h
    rcases hmore : (c.next limits).2.tokens limits with e | ts' <;> rw [hmore] at h <;> cases h
    exact ⟨t, ts', rfl, rfl, .inr ⟨hstop, rfl⟩⟩

/-- A whole scan from here ends after so many calls: with their tokens, which
cover the text, or with the error of the last one. -/
def ScanEnds (limits : Limits) (c : Cursor) (n : Nat) : Prop :=
  ∃ ts : List Token,
    (c.tokens limits = .ok ts ∧ (c.steps limits n).1 = ts.map .ok ∧ Covers ts c.rest) ∨
      ∃ e, c.tokens limits = .error e ∧ (c.steps limits n).1 = ts.map .ok ++ [.error e]

/-- A token that is not the last one comes in front of a scan that ends. -/
theorem ScanEnds.cons {read gap word : List Char} {n : Nat} {t : Token}
    (htakes : c.Takes limits read gap word) (ht : (c.next limits).1 = .ok t) (hne : t.kind ≠ .stop)
    (h : (c.next limits).2.ScanEnds limits n) : c.ScanEnds limits (n + 1) := by
  have hnext : c.next limits = (.ok t, (c.next limits).2) := Prod.ext ht rfl
  have hsteps : (c.steps limits (n + 1)).1 = .ok t :: ((c.next limits).2.steps limits n).1 := by
    rw [← ht]
    rfl
  have hcall := tokens_of_ne_stop hnext hne
  rw [ScanEnds, hsteps, hcall]
  obtain ⟨ts, ⟨htokens, hresults, hcovers⟩ | ⟨e, herror, hresults⟩⟩ := h
  · refine ⟨t :: ts, .inl ⟨by rw [htokens]; rfl, by rw [hresults]; rfl, ?_⟩⟩
    rw [htakes.text, ← (htakes.token t ht).1]
    exact .cons htakes.skips.holds hcovers
  · exact ⟨t :: ts, .inr ⟨e, by rw [herror]; rfl, by rw [hresults]; rfl⟩⟩

/-- A scan ends after at most one call for each character, and one. -/
theorem exists_scanEnds (limits : Limits) {read : List Char} (hread : c.position = .behind read) :
    ∃ n ≤ c.rest.length + 1, c.ScanEnds limits n := by
  induction hlength : c.rest.length using Nat.strongRecOn generalizing c read with
  | ind m ih =>
  obtain ⟨gap, word, htakes⟩ := takes_next limits hread
  rcases hresult : (c.next limits).1 with e | t
  · refine ⟨1, by omega, [], .inr ⟨e, tokens_of_error hresult, ?_⟩⟩
    rw [List.map_nil, List.nil_append, ← hresult]
    rfl
  rcases htakes.progress with ⟨t', ht', hstop, -, hrest⟩ | ⟨hne, -⟩
  · obtain rfl : t = t' := Except.ok.inj (hresult.symm.trans ht')
    have hnext : c.next limits = (.ok t, (c.next limits).2) := Prod.ext hresult rfl
    refine ⟨1, by omega, [t], .inl ⟨tokens_of_stop hnext hstop, ?_, ?_⟩⟩
    · rw [List.map_singleton, ← hresult]
      rfl
    · rw [htakes.text, hrest, ← (htakes.token t hresult).1]
      exact .cons htakes.skips.holds .nil
  · obtain ⟨n, hn, hends⟩ := ih _ (hlength ▸ length_next_lt hne) htakes.position rfl
    have hlt := length_next_lt hne
    exact ⟨n + 1, by omega, hends.cons htakes hresult (hne t hresult)⟩

end Cursor

/-- **The scanner accounts for its text**, for any number of calls. What has
been read and what is unread are the text, and the place is behind what has been
read. Every call skips as much as it can, and takes a piece of the rest unless
it reports the end of the text. That happens after at most one call for each
character and one, and from then on always. A scan of the whole text comes to
an end, and if there is no error its tokens cover the text. -/
theorem scanning_accounts_for_text (limits : Limits) (source : String) :
    (∀ n, ∃ read gap word,
      source.toList = read ++ (Cursor.after limits n (.ofString source)).rest ∧
        (Cursor.after limits n (.ofString source)).position = .behind read ∧
        (Cursor.after limits n (.ofString source)).Takes limits read gap word) ∧
      (∃ n ≤ source.length, ∃ t,
        ((Cursor.after limits n (.ofString source)).next limits).1 = .ok t ∧ t.kind = .stop ∧
          ∀ m ≥ n, ((Cursor.after limits m (.ofString source)).next limits).1 = .ok t) ∧
      ∃ n ≤ source.length + 1, (Cursor.ofString source).ScanEnds limits n := by
  have horigin : (Cursor.ofString source).position = .behind [] := rfl
  refine ⟨fun n => ?_, ?_, Cursor.exists_scanEnds limits horigin⟩
  · obtain ⟨read, htext, hposition⟩ := Cursor.exists_read_after limits source n
    obtain ⟨gap, word, htakes⟩ := Cursor.takes_next limits hposition
    exact ⟨read, gap, word, htext, hposition, htakes⟩
  · obtain ⟨n, hn, t, ht, hstop⟩ := Cursor.exists_stop limits (.ofString source)
    exact ⟨n, hn, t, ht, hstop, fun m hm => Cursor.stop_of_le ht hstop hm⟩

end ClassLang
