import ClassLang.Token.Lexeme

/-!
# Scanning a text into tokens

A `Cursor` stands somewhere in a text: it holds what is unread and the position
reached. `Cursor.next` skips what is ignorable, reads one lexeme and moves on
behind it, whether or not the lexeme means something. `scan` reads a whole
text up to the first fault or the end.

Scanning ends because every call reads a character or has none left to read
(`Cursor.next_rest_length_lt`).
-/

namespace ClassLang

/-- A lexeme that means nothing, and where it starts. -/
structure ScanError where
  /-- the start of the lexeme -/
  position : Position
  /-- why it means nothing -/
  fault : ScanFault
deriving DecidableEq

/-- The report of a scan error. -/
def ScanError.message (e : ScanError) : String :=
  "[" ++ e.position.text ++ "] Error: " ++ e.fault.text

/-- A place in a text that is being read. -/
structure Cursor where
  /-- the unread text -/
  rest : List Char
  /-- the position of its first character -/
  position : Position := .origin

namespace Lexeme

theorem isWordPart_of_isWordStart {c : Char} (h : isWordStart c = true) : isWordPart c = true := by
  simp only [isWordStart, isWordPart, Char.isAlphanum, Bool.or_eq_true] at *
  rcases h with h | h
  · exact .inl (.inl h)
  · exact .inr h

/-- Where there is text, the lexeme at its head has at least one character. -/
theorem read_length_pos (limits : Limits) (c : Char) (rest : List Char) :
    0 < (read limits (c :: rest)).length := by
  simp only [read]
  split
  · simp [ofString]
  split
  · next hdigit =>
    have hwhole : 0 < ((c :: rest).takeWhile Char.isDigit).length := by simp [hdigit]
    unfold ofNumber
    generalize (c :: rest).takeWhile Char.isDigit = whole at hwhole ⊢
    simp only [apply_ite Lexeme.length]
    split <;> split <;> omega
  split
  · next hstart => simp [ofWord, isWordPart_of_isWordStart hstart]
  split
  · unfold ofMark
    split <;> simp
  · simp

end Lexeme

namespace Cursor

/-- The start of a text. -/
def ofString (source : String) : Cursor := { rest := source.toList }

/-- The next token or fault, and the place behind it. -/
def next (limits : Limits) (c : Cursor) : Except ScanError Token × Cursor :=
  let blank := ignorable c.rest
  let start := c.position.advance (c.rest.take blank)
  let text := c.rest.drop blank
  let lexeme := Lexeme.read limits text
  let word := text.take lexeme.length
  let stop := start.advance word
  let result :=
    match lexeme.meaning with
    | .ok kind => .ok { kind, lexeme := String.ofList word, start, stop }
    | .error fault => .error { position := start, fault }
  (result, { rest := text.drop lexeme.length, position := stop })

/-- **Progress.** A call that does not report the end of the text leaves less
text unread. -/
theorem next_rest_length_lt {limits : Limits} {c : Cursor} {t : Token} {c' : Cursor}
    (h : c.next limits = (.ok t, c')) (hkind : t.kind ≠ .stop) :
    c'.rest.length < c.rest.length := by
  unfold next at h
  simp only [Prod.mk.injEq] at h
  obtain ⟨ht, rfl⟩ := h
  rcases htext : c.rest.drop (ignorable c.rest) with _ | ⟨a, rest⟩
  · rw [htext] at ht
    simp only [Lexeme.read, Except.ok.injEq] at ht
    subst ht
    exact absurd rfl hkind
  · have hpos := Lexeme.read_length_pos limits a rest
    have hlen : (a :: rest).length ≤ c.rest.length := by
      rw [← htext, List.length_drop]; omega
    simp only [List.length_drop, List.length_cons] at *
    omega

/-- All tokens from here to the end of the text, the end included, unless a
fault comes first. -/
def tokens (limits : Limits) (c : Cursor) : Except ScanError (List Token) :=
  match h : c.next limits with
  | (.error e, _) => .error e
  | (.ok t, c') =>
    if hkind : t.kind = .stop then .ok [t]
    else
      have : c'.rest.length < c.rest.length := next_rest_length_lt h hkind
      (tokens limits c').map (t :: ·)
termination_by c.rest.length

/-- The results of a number of calls, going on behind faults and at the end of
the text, and the place reached. -/
def steps (limits : Limits) : Nat → Cursor → List (Except ScanError Token) × Cursor
  | 0, c => ([], c)
  | n + 1, c =>
    let (result, c) := c.next limits
    let (results, c) := steps limits n c
    (result :: results, c)

end Cursor

/-- The tokens of a whole text. The last one is the end of the text. -/
def scan (limits : Limits) (source : String) : Except ScanError (List Token) :=
  (Cursor.ofString source).tokens limits

end ClassLang
