import ClassLang.Proofs.Scanner.Accounting

/-!
# From tokens to a text and back

Tokens are written one behind the other, with a separator between each and the
next: blank space, and more of what can be ignored behind it (`IsSeparator`,
`writtenWith`). Whatever the separators are, scanning finds just these tokens.

And there are no others that scanning could find: whatever the text, as long as
its places can be counted in 32 bits, the tokens in front of the end of it are
some that can be written.
-/

namespace ClassLang

/-- Ignorable text between two tokens: it begins with blank space, and its
comments have the line feed behind them. -/
def IsSeparator (gap : String) : Prop :=
  IsGap gap.toList ∧ ∃ c rest, gap.toList = c :: rest ∧ isBlank c = true

/-- Tokens in their canonical spelling, each with a gap in front of it. -/
def spelledBehind (gaps : List String) (ks : List Kind) : String :=
  String.join (List.zipWith (fun gap k => gap ++ k.spelling) gaps ks)

/-- Tokens in their canonical spelling, with separators between them. -/
def writtenWith (separators : List String) (ks : List Kind) : String :=
  spelledBehind ("" :: separators) ks

variable {limits : Limits}

/-! ## From tokens to a text -/

theorem toList_spelledBehind_cons (gap : String) (gaps : List String) (k : Kind) (ks : List Kind) :
    (spelledBehind (gap :: gaps) (k :: ks)).toList =
      gap.toList ++ (k.spelling.toList ++ (spelledBehind gaps ks).toList) := by
  rw [spelledBehind, List.zipWith_cons_cons, String.toList_join, List.flatMap_cons,
    String.toList_append, List.append_assoc, spelledBehind, String.toList_join]

theorem separated_spelledBehind {gaps : List String} (hgaps : ∀ gap ∈ gaps, IsSeparator gap)
    (ks : List Kind) : Separated (spelledBehind gaps ks).toList := by
  rcases gaps with _ | ⟨gap, gaps⟩
  · exact separated_nil
  rcases ks with _ | ⟨k, ks⟩
  · exact separated_nil
  obtain ⟨c, rest, hgap, hc⟩ := (hgaps gap List.mem_cons_self).2
  rw [toList_spelledBehind_cons, hgap]
  exact separated_cons.mpr hc

/-- Behind some gap, tokens with separators between them are a text that is
written as these tokens. -/
theorem isWritten_spelledBehind {gap : String} {gaps : List String} {ks : List Kind}
    (hgap : IsGap gap.toList) (hgaps : ∀ gap ∈ gaps, IsSeparator gap)
    (hks : ∀ k ∈ ks, k.IsWritable limits) (hlength : ks.length ≤ gaps.length + 1) :
    IsWritten limits (spelledBehind (gap :: gaps) ks).toList ks := by
  induction ks generalizing gap gaps with
  | nil => exact .nil isSkipped_nil
  | cons k ks ih =>
    obtain ⟨hk, hks⟩ := List.forall_mem_cons.mp hks
    rw [toList_spelledBehind_cons]
    refine .cons hgap.isSkipped hk (separated_spelledBehind hgaps ks) ?_
    rcases gaps with _ | ⟨next, gaps⟩
    · obtain rfl : ks = [] := List.length_eq_zero_iff.mp (by simpa using hlength)
      exact .nil isSkipped_nil
    · obtain ⟨hnext, hgaps⟩ := List.forall_mem_cons.mp hgaps
      exact ih hnext.1 hgaps hks (by simpa using hlength)

/-! ## From a text to tokens -/

namespace Cursor

variable {c : Cursor}

theorem isRead_of_next {t : Token} (ht : (c.next limits).1 = .ok t) (hne : t.kind ≠ .stop) :
    t.kind.IsRead limits c.rest.length := by
  rcases htext : c.rest.drop (ignorable c.rest) with _ | ⟨a, rest⟩
  · rw [next_of_end htext] at ht
    cases ht
    exact absurd rfl hne
  · dsimp only [next] at ht
    rw [htext] at ht
    split at ht
    · next hmeaning =>
      cases ht
      exact (Lexeme.isRead_of_read hmeaning).mono (length_text_le htext)
    · cases ht

/-- A scan finds tokens that a text of this length can have, and the end. -/
theorem isRead_of_tokens {ts : List Token} (h : c.tokens limits = .ok ts) :
    ∃ ks : List Kind, ts.map Token.kind = ks ++ [.stop] ∧
      ∀ k ∈ ks, k.IsRead limits c.rest.length := by
  induction ts generalizing c with
  | nil =>
    obtain ⟨t, ts, -, hts, -⟩ := tokens_eq_ok h
    cases hts
  | cons t ts ih =>
    obtain ⟨t, ts, ht, hts, hmore⟩ := tokens_eq_ok h
    cases hts
    obtain ⟨hstop, rfl⟩ | ⟨hstop, hmore⟩ := hmore
    · exact ⟨[], by rw [List.map_singleton, hstop]; rfl, List.forall_mem_nil _⟩
    · obtain ⟨ks, hkinds, hks⟩ := ih hmore
      have hlt := next_rest_length_lt (Prod.ext ht rfl) hstop
      exact ⟨t.kind :: ks, by rw [List.map_cons, hkinds]; rfl,
        List.forall_mem_cons.mpr ⟨isRead_of_next ht hstop,
          fun k hk => (hks k hk).mono (Nat.le_of_lt hlt)⟩⟩

/-- As long as places can be counted, these can be written. -/
theorem isWritable_of_tokens {ts : List Token} (h : c.tokens limits = .ok ts)
    (hlength : c.rest.length < 4294967296) :
    ∃ ks : List Kind, ts.map Token.kind = ks ++ [.stop] ∧ ∀ k ∈ ks, k.IsWritable limits := by
  obtain ⟨ks, hkinds, hks⟩ := isRead_of_tokens h
  exact ⟨ks, hkinds, fun k hk => (hks k hk).isWritable hlength⟩

end Cursor

/-- **Round trip of tokens.** Tokens that can be written, with any separators
between them, are scanned as these tokens. And only tokens that can be written
are ever found, in any text of less than 2 ^ 32 characters. -/
theorem scan_writtenWith (limits : Limits) :
    (∀ (separators : List String) (ks : List Kind), ks.length ≤ separators.length + 1 →
      (∀ gap ∈ separators, IsSeparator gap) → (∀ k ∈ ks, k.IsWritable limits) →
        ∃ ts, scan limits (writtenWith separators ks) = .ok ts ∧
          ts.map Token.kind = ks ++ [.stop]) ∧
      ∀ (source : String) (ts : List Token), source.length < 4294967296 →
        scan limits source = .ok ts →
          ∃ ks : List Kind, ts.map Token.kind = ks ++ [.stop] ∧ ∀ k ∈ ks, k.IsWritable limits := by
  refine ⟨fun separators ks hlength hseparators hks => ?_, fun source ts hlength hscan => ?_⟩
  · exact scan_written (isWritten_spelledBehind .nil hseparators hks hlength)
  · exact Cursor.isWritable_of_tokens hscan hlength

/-- A name, a string with escapes, and a number with noughts behind the point. -/
def severalKinds : List Kind :=
  [.identifier "classy", .string "\"\\\n\tß", .double ⟨12, by decide⟩ ⟨7, by decide⟩ 3]

/-- Separators, of which one is a comment that a number stands in. -/
def severalSeparators : List String := [" \t// 1.5\r\n", "\n"]

theorem isSeparator_several : ∀ gap ∈ severalSeparators, IsSeparator gap := by
  refine List.forall_mem_cons.mpr
    ⟨⟨?_, ' ', _, rfl, rfl⟩, List.forall_mem_singleton.mpr ⟨?_, '\n', _, rfl, rfl⟩⟩
  · exact .blank rfl (.blank rfl (.comment ⟨" 1.5\r".toList, by decide, rfl⟩ .nil))
  · exact .blank rfl .nil

theorem scan_writtenWith_several :
    writtenWith severalSeparators severalKinds =
        "classy \t// 1.5\r\n\"\\\"\\\\\\n\\tß\"\n12.007" ∧
      (∀ gap ∈ severalSeparators, IsSeparator gap) ∧ (∀ k ∈ severalKinds, k.IsWritable {}) ∧
      ∃ ts, scan {} (writtenWith severalSeparators severalKinds) = .ok ts ∧
        ts.map Token.kind = severalKinds ++ [.stop] ∧
        ∃ ks : List Kind, ts.map Token.kind = ks ++ [.stop] ∧ ∀ k ∈ ks, k.IsWritable {} := by
  have hkinds : ∀ k ∈ severalKinds, k.IsWritable {} := by decide
  obtain ⟨ts, hscan, hts⟩ := (scan_writtenWith {}).1 severalSeparators severalKinds (by decide)
    isSeparator_several hkinds
  exact ⟨by decide, isSeparator_several, hkinds, ts, hscan, hts,
    (scan_writtenWith {}).2 _ ts (by decide) hscan⟩

end ClassLang
