import ClassLang.Proofs.Scanner.Spelling

/-!
# Texts that tokens are written as

A text is written as tokens if it consists of their spellings, with ignorable
text in front of them and behind the last one, and with blank space at least
where one token ends (`IsWritten`). Scanning such a text finds just these
tokens: each of them is read back from its spelling, and what is in front of it
is skipped.
-/

namespace ClassLang

/-- A text that is skipped as a whole, whatever follows it. -/
def IsSkipped (gap : List Char) : Prop :=
  ∀ text, ignorable (gap ++ text) = gap.length + ignorable text

/-- A text that these tokens are written as. -/
inductive IsWritten (limits : Limits) : List Char → List Kind → Prop where
  /-- no tokens -/
  | nil {gap : List Char} : IsSkipped gap → IsWritten limits gap []
  /-- a token, and others behind it -/
  | cons {gap rest : List Char} {k : Kind} {ks : List Kind} :
    IsSkipped gap → k.IsWritable limits → Separated rest → IsWritten limits rest ks →
    IsWritten limits (gap ++ (k.spelling.toList ++ rest)) (k :: ks)

theorem isSkipped_nil : IsSkipped [] := fun _ => (Nat.zero_add _).symm

theorem isSkipped_blank {c : Char} (hc : isBlank c = true) : IsSkipped [c] := by
  intro text
  rw [List.singleton_append, ignorable, ignorableFrom, if_pos hc, Nat.add_comm]
  rfl

namespace Lexeme

variable {limits : Limits}

/-- Where a token can be read, there is nothing to skip. -/
theorem ignorable_eq_zero {c : Char} {text : List Char} {k : Kind}
    (hread : (read limits (c :: text)).meaning = .ok k)
    (hcomment : ¬ (c = '/' ∧ text.head? = some '/')) : ignorable (c :: text) = 0 := by
  rw [ignorable, ignorableFrom, if_neg hcomment, ite_eq_right_iff]
  intro hblank
  rcases isBlank_iff.mp hblank with rfl | rfl | rfl | rfl <;> cases hread

/-- A spelling is not skipped. -/
theorem ignorable_spelling {k : Kind} (hk : k.IsWritable limits) {rest : List Char}
    (hrest : Separated rest) : ignorable (k.spelling.toList ++ rest) = 0 := by
  have hread := read_spelling hk hrest
  rcases htext : k.spelling.toList ++ rest with _ | ⟨c, text⟩
  · rfl
  rw [htext] at hread
  refine ignorable_eq_zero (by rw [hread]) ?_
  -- A slash is a token of its own, and behind it no other slash follows.
  rintro ⟨rfl, hhead⟩
  have hslash : read limits ('/' :: text) = { length := 1, meaning := .ok (.mark .slash) } := rfl
  rw [hslash] at hread
  injection hread with _ hmeaning
  cases hmeaning
  have hrest' : rest = text := by simpa [Kind.spelling, Mark.spelling] using htext
  exact hrest.head?_ne (by decide) (hrest' ▸ hhead)

end Lexeme

namespace Cursor

variable {limits : Limits}

/-- The next token of a text is the one that is read where nothing is left to
skip. -/
theorem next_read {gap text rest : List Char} {k : Kind} (hgap : IsSkipped gap)
    (hread : Lexeme.read limits (text ++ rest) = { length := text.length, meaning := .ok k })
    (hskip : ignorable (text ++ rest) = 0) (position : Position) :
    ∃ t c, next limits ⟨gap ++ (text ++ rest), position⟩ = (.ok t, c) ∧
      t.kind = k ∧ c.rest = rest := by
  have hskip : ignorable (gap ++ (text ++ rest)) = gap.length := by
    rw [hgap, hskip, Nat.add_zero]
  simp only [next, hskip, List.drop_left, hread]
  exact ⟨_, _, rfl, rfl, rfl⟩

/-- Behind the last token stands the end of the text. -/
theorem next_gap {gap : List Char} (hgap : IsSkipped gap) (position : Position) :
    ∃ t c, next limits ⟨gap, position⟩ = (.ok t, c) ∧ t.kind = .stop := by
  have hskip : ignorable gap = gap.length := by
    have := hgap []
    rwa [List.append_nil] at this
  simp only [next, hskip, List.drop_length, Lexeme.read]
  exact ⟨_, _, rfl, rfl⟩

theorem tokens_of_stop {c c' : Cursor} {t : Token} (h : c.next limits = (.ok t, c'))
    (hstop : t.kind = .stop) : c.tokens limits = .ok [t] := by
  rw [tokens]
  split
  · next hnext =>
    rw [h] at hnext
    cases hnext
  · next hnext =>
    rw [h] at hnext
    cases hnext
    rw [dif_pos hstop]

theorem tokens_of_ne_stop {c c' : Cursor} {t : Token} (h : c.next limits = (.ok t, c'))
    (hstop : t.kind ≠ .stop) : c.tokens limits = (c'.tokens limits).map (t :: ·) := by
  rw [tokens]
  split
  · next hnext =>
    rw [h] at hnext
    cases hnext
  · next hnext =>
    rw [h] at hnext
    cases hnext
    rw [dif_neg hstop]

/-- Wherever the text stands, a scan of it finds these tokens. -/
def Finds (limits : Limits) (text : List Char) (ks : List Kind) : Prop :=
  ∀ position, ∃ ts, tokens limits ⟨text, position⟩ = .ok ts ∧ ts.map Token.kind = ks ++ [.stop]

theorem Finds.nil {gap : List Char} (hgap : IsSkipped gap) : Finds limits gap [] := by
  intro position
  obtain ⟨t, c, hnext, hstop⟩ := next_gap hgap position
  exact ⟨[t], tokens_of_stop hnext hstop, by rw [List.map_singleton, hstop]; rfl⟩

/-- A token that is read in front is found in front. -/
theorem Finds.cons {gap text rest : List Char} {k : Kind} {ks : List Kind} (hgap : IsSkipped gap)
    (hread : Lexeme.read limits (text ++ rest) = { length := text.length, meaning := .ok k })
    (hskip : ignorable (text ++ rest) = 0) (hstop : k ≠ .stop) (h : Finds limits rest ks) :
    Finds limits (gap ++ (text ++ rest)) (k :: ks) := by
  intro position
  obtain ⟨t, ⟨_, position'⟩, hnext, rfl, rfl⟩ := next_read hgap hread hskip position
  obtain ⟨ts, hts, hkinds⟩ := h position'
  refine ⟨t :: ts, ?_, by rw [List.map_cons, hkinds]; rfl⟩
  rw [tokens_of_ne_stop hnext hstop, hts]
  rfl

/-- A token is found by its spelling, if blank space or nothing follows. -/
theorem Finds.cons_spelling {gap rest : List Char} {k : Kind} {ks : List Kind}
    (hgap : IsSkipped gap) (hk : k.IsWritable limits) (hrest : Separated rest)
    (h : Finds limits rest ks) : Finds limits (gap ++ (k.spelling.toList ++ rest)) (k :: ks) := by
  refine .cons hgap (read_spelling hk hrest) (Lexeme.ignorable_spelling hk hrest) ?_ h
  rintro rfl
  exact hk

/-- **A text is scanned as the tokens it is written as**, wherever it stands. -/
theorem finds_of_isWritten {text : List Char} {ks : List Kind} (h : IsWritten limits text ks) :
    Finds limits text ks := by
  induction h with
  | nil hgap => exact .nil hgap
  | cons hgap hk hrest _ ih => exact .cons_spelling hgap hk hrest ih

end Cursor

theorem scan_written {limits : Limits} {source : String} {ks : List Kind}
    (h : IsWritten limits source.toList ks) :
    ∃ ts, scan limits source = .ok ts ∧ ts.map Token.kind = ks ++ [.stop] :=
  Cursor.finds_of_isWritten h .origin

end ClassLang
