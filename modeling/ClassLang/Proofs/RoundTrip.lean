import ClassLang.Grammar.Written
import ClassLang.Proofs.Parser.Program
import ClassLang.Proofs.Scanner.Written

/-!
# From a program to its text and back

The source text of a program is the spelling of tokens that derive it, with
blanks between them. Scanning finds the tokens again, and parsing finds the
tree that they derive.
-/

namespace ClassLang

variable {limits : Limits}

/-- The spellings of tokens, each with a blank in front. -/
def spaced (ks : List Kind) : List Char := ks.flatMap fun k => ' ' :: k.spelling.toList

/-- Tokens with a blank in front of each are separated. -/
theorem separated_spaced (ks : List Kind) : Separated (spaced ks) := by
  cases ks with
  | nil => exact separated_nil
  | cons k ks => exact separated_cons.mpr rfl

/-- They are written as the scanner reads them. -/
theorem isWritten_spaced :
    ∀ {ks : List Kind}, (∀ k ∈ ks, k.IsWritable limits) → IsWritten limits (spaced ks) ks
  | [], _ => .nil isSkipped_nil
  | k :: ks, h => by
    obtain ⟨hk, hks⟩ := List.forall_mem_cons.mp h
    have hwritten := IsWritten.cons (isSkipped_blank (c := ' ') rfl) hk (separated_spaced ks)
      (isWritten_spaced hks)
    rwa [List.singleton_append, ← List.cons_append] at hwritten

/-- The spellings with blanks between them are the first one and the rest,
spaced. -/
theorem toList_intercalate_spelling (k : Kind) (ks : List Kind) :
    (" ".intercalate ((k :: ks).map Kind.spelling)).toList = k.spelling.toList ++ spaced ks := by
  induction ks generalizing k with
  | nil => rw [List.map_singleton, String.intercalate_singleton, spaced, List.flatMap_nil,
      List.append_nil]
  | cons l ks ih =>
    rw [List.map_cons, List.map_cons, String.intercalate_cons_cons, ← List.map_cons,
      String.toList_append, String.toList_append, ih]
    simp [spaced]

/-- In front of a text in which other tokens are found, these are found too. -/
theorem finds_spaced_append {rest : List Char} {ks ks' : List Kind} (hrest : Separated rest)
    (h : Cursor.Finds limits rest ks') (hks : ∀ k ∈ ks, k.IsWritable limits) :
    Cursor.Finds limits (spaced ks ++ rest) (ks ++ ks') := by
  induction ks with
  | nil => exact h
  | cons k ks ih =>
    obtain ⟨hk, hks⟩ := List.forall_mem_cons.mp hks
    have hnext : Separated (spaced ks ++ rest) := by
      cases ks with
      | nil => exact hrest
      | cons _ _ => exact separated_cons.mpr rfl
    have hfinds := (ih hks).cons_spelling (isSkipped_blank (c := ' ') rfl) hk hnext
    have htext : spaced (k :: ks) ++ rest = [' '] ++ (k.spelling.toList ++ (spaced ks ++ rest)) := by
      simp [spaced]
    rwa [htext]

/-- The source text of a program is written as its tokens. -/
theorem isWritten_intercalate {ks : List Kind} (h : ∀ k ∈ ks, k.IsWritable limits) :
    IsWritten limits (" ".intercalate (ks.map Kind.spelling)).toList ks := by
  cases ks with
  | nil => exact .nil isSkipped_nil
  | cons k ks =>
    obtain ⟨hk, hks⟩ := List.forall_mem_cons.mp h
    rw [toList_intercalate_spelling]
    have hwritten := IsWritten.cons isSkipped_nil hk (separated_spaced ks) (isWritten_spaced hks)
    rwa [List.nil_append] at hwritten

/-- The end of the text is no token that can be written. -/
theorem Kind.IsWritable.ne_stop {k : Kind} (h : k.IsWritable limits) : k ≠ .stop := by
  rintro rfl
  exact h

/-- The tokens of a text are those in front of its end. -/
theorem textKinds_of_map_eq {ts : List Token} {ks : List Kind}
    (h : ts.map Token.kind = ks ++ [.stop]) (hks : ∀ k ∈ ks, k ≠ .stop) : textKinds ts = ks := by
  rw [textKinds, h, List.takeWhile_append_of_pos (by simpa using hks)]
  simp

/-- A source text is parsed in two steps. -/
theorem parseSource_eq_ok_iff {source : String} {p : Program} :
    parseSource limits source = .ok p ↔
      ∃ ts, scan limits source = .ok ts ∧ parseProgram ts = .ok p := by
  cases hscan : scan limits source with
  | error e =>
    have herror : parseSource limits source = .error (.scan e) := by rw [parseSource, hscan]; rfl
    simp [herror]
  | ok ts =>
    have hsource : parseSource limits source = (parseProgram ts).mapError .parse := by
      rw [parseSource, hscan]
      rfl
    rw [hsource]
    rcases hparse : parseProgram ts with e | result
    · exact ⟨fun h => (by cases h), fun ⟨_, hts, h⟩ => by cases hts; cases hparse.symm.trans h⟩
    · exact ⟨fun h => ⟨ts, rfl, by cases h; exact hparse⟩,
        fun ⟨_, hts, h⟩ => by cases hts; cases hparse.symm.trans h; rfl⟩

/-- A text is parsed as the program whose tokens are found in it. -/
theorem parseSource_of_finds {source : String} {p : Program} (hp : p.wellFormed = true)
    (hstop : ∀ k ∈ p.kinds, k ≠ .stop) (h : Cursor.Finds limits source.toList p.kinds) :
    parseSource limits source = .ok p := by
  -- From the text to its tokens, and from the tokens to the tree they derive.
  obtain ⟨ts, hscan, hts⟩ := h .origin
  obtain ⟨rest, hreads, hend⟩ := textKinds_eq_iff.mp (textKinds_of_map_eq hts hstop)
  have hparse := parseProgram_of_isProgram (p.isProgram_kinds hp) hreads hend
  exact parseSource_eq_ok_iff.mpr ⟨ts, hscan, hparse⟩

/-- **Round trip.** The source text of a program that a text can have, with
names and literals that fit the limits, is read as that program. -/
theorem parseSource_source {p : Program} (hp : p.wellFormed = true)
    (hkinds : ∀ k ∈ p.kinds, k.IsWritable limits) : parseSource limits p.source = .ok p :=
  parseSource_of_finds hp (fun k hk => (hkinds k hk).ne_stop)
    (Cursor.finds_of_isWritten (isWritten_intercalate hkinds))

/-- A program that needs parentheses, an escape, leading zeros in a fraction
and a negation that takes a comparison as a whole. -/
def returnsNegation : Program where
  functions := .ofList [
    ("main", { returns := .boolean, name := "main", parameters := [], body := [
      .ret (.not (.relation .lt true
        (.binary .mul (.binary .add (.var "x") (.string "\"")) (.var "y"))
        (.decimal ⟨1, by decide⟩ ⟨5, by decide⟩ 2)))] })]

/-- A program that is restored from its source. -/
theorem parseSource_source_returnsNegation :
    returnsNegation.wellFormed = true ∧ (∀ k ∈ returnsNegation.kinds, k.IsWritable {}) ∧
      parseSource {} returnsNegation.source = .ok returnsNegation :=
  ⟨by decide, by decide, parseSource_source (by decide) (by decide)⟩

end ClassLang
