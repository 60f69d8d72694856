import ClassLang.Proofs.Parser.Lookahead
import ClassLang.Proofs.Parser.ProgramViable

/-!
# Errors point at the first token that does not fit

The token that a parse error reports is the first one at which the tokens stop
to be the beginning of a program, as far as the parser can tell by looking one
token ahead. Two things make up this claim: what stands before the token can be
completed to a program, and nothing that stands behind the token and the one
after it had any part in the error.
-/

namespace ClassLang

/-- There are tokens of any kinds, the end of the text apart. -/
theorem exists_reads {ks : List Kind} (hks : ∀ k ∈ ks, k ≠ .stop) :
    ∃ ts : List Token, Reads ts ks [] := by
  induction ks with
  | nil => exact ⟨[], .nil⟩
  | cons k ks ih =>
    obtain ⟨hk, hks⟩ := List.forall_mem_cons.mp hks
    obtain ⟨ts, hts⟩ := ih hks
    exact ⟨{ kind := k, lexeme := "", start := .origin, stop := .origin } :: ts, .cons rfl hk hts⟩

theorem readProgram_eq_error {ts : List Token} {e : ParseError} :
    readProgram ts = .error e ↔ parseProgram ts = .error e := by
  rw [parseProgram_eq]
  rcases readProgram ts with e' | r
  · exact ⟨by rintro ⟨⟩; rfl, by rintro ⟨⟩; rfl⟩
  · exact ⟨by rintro ⟨⟩, by rintro ⟨⟩⟩

/-- Lists that agree up to the second index behind a front have it in common,
and are near behind it. -/
theorem near_drop {ts ts' : List Token} {k : Nat} (h : ∀ i ≤ k + 1, ts'[i]? = ts[i]?) :
    ts'.take k = ts.take k ∧ Near (ts.drop k) (ts'.drop k) := by
  have htake : ts'.take (k + 2) = ts.take (k + 2) := by
    refine List.ext_getElem? fun i => ?_
    rw [List.getElem?_take, List.getElem?_take]
    split
    · exact h i (by omega)
    · rfl
  constructor
  · have hk := congrArg (List.take k) htake
    rwa [List.take_take, List.take_take, Nat.min_eq_left (by omega)] at hk
  · have hk := congrArg (List.drop k) htake
    rw [List.drop_take, List.drop_take, Nat.add_sub_cancel_left] at hk
    exact hk.symm

/-- **Errors point at the first token that does not fit.** The token that a
parse error reports stands somewhere in the list, or is the end that is missing
behind it. What stands before it is the beginning of a list that is parsed as a
program. And any list that agrees with this one up to the token behind the
reported one gives the same error at the same place. -/
theorem parseProgram_eq_error {ts : List Token} {e : ParseError}
    (h : parseProgram ts = .error e) :
    ∃ k ≤ ts.length, e.unread = ts.drop k ∧ e.token = ts[k]?.getD .missing ∧
      (∃ more p, parseProgram (ts.take k ++ more) = .ok p) ∧
      ∀ ts' : List Token, (∀ i ≤ k + 1, ts'[i]? = ts[i]?) →
        ∃ e', parseProgram ts' = .error e' ∧ e'.unread = ts'.drop k ∧ e'.problem = e.problem ∧
          e'.position = e.position ∧ e'.expected = e.expected ∧ e'.found = e.found := by
  have hread := readProgram_eq_error.mpr h
  obtain ⟨taken, rfl, hagain⟩ := (readProgram_local ts).error hread
  refine ⟨taken.length, by simp, by simp, ?_, ?_, fun ts' hts' => ?_⟩
  · rw [List.getElem?_append_right (Nat.le_refl _), Nat.sub_self, ← List.head?_eq_getElem?,
      ← List.headD_eq_head?_getD]
    rfl
  · obtain ⟨ks, hks, ls, p, hls, hp⟩ := readProgram_viable _ e hread
    obtain ⟨taken', htaken', hreads⟩ := hks.append_right
    obtain rfl := List.append_cancel_right htaken'
    obtain ⟨more, hmore⟩ := exists_reads hls
    refine ⟨more, p, ?_⟩
    rw [List.take_left]
    exact parseProgram_of_isProgram hp ((hreads more).trans hmore) rfl
  · obtain ⟨htake, hnear⟩ := near_drop hts'
    rw [List.take_left] at htake
    rw [List.drop_left] at hnear
    have hsplit := List.take_append_drop taken.length ts'
    rw [htake] at hsplit
    have hparse := readProgram_eq_error.mp (hagain _ hnear)
    rw [hsplit] at hparse
    have htoken : peek (ts'.drop taken.length) = e.token := hnear.peek_eq.symm
    refine ⟨_, hparse, rfl, rfl, ?_, rfl, ?_⟩
    · rw [ParseError.position, ParseError.token, htoken, ParseError.position]
    · simp only [ParseError.found, ParseError.token, htoken]

/-- A class that declares `x` a second time, as a method, and goes on with
what is no list of parameters. -/
def secondMember : List Token :=
  [.mark .leftBrace, .keyword .classWord, .identifier "A", .mark .leftBrace,
    .keyword .integerType, .identifier "x", .mark .semicolon,
    .keyword .booleanType, .identifier "x", .mark .leftParen, .mark .semicolon].map
    fun kind => { kind, lexeme := "", start := .origin, stop := .origin }

/-- A class with two members of one name: the second one is reported. -/
theorem parseProgram_eq_error_secondMember :
    parseProgram secondMember = .error ⟨secondMember.drop 8, .redefined .member⟩ ∧
      ∃ k ≤ secondMember.length, secondMember.drop 8 = secondMember.drop k ∧
        (∃ more p, parseProgram (secondMember.take k ++ more) = .ok p) := by
  have h : parseProgram secondMember = .error ⟨secondMember.drop 8, .redefined .member⟩ := by cbv
  obtain ⟨k, hk, hunread, -, hprefix, -⟩ := parseProgram_eq_error h
  exact ⟨h, k, hk, hunread, hprefix⟩

end ClassLang
