import ClassLang.Parse.Stmt
import ClassLang.Proofs.Parser.ExprSound

/-!
# What is parsed as a statement derives it

As for expressions, by following the recursion of the parser. The parser reads
some constructs in two parts, the first of which decides what the second one
is: a declaration behind its type, an assignment or a call behind its first
name, a block behind its brace. The claim for such a part puts the tokens of
the first part in front.
-/

namespace ClassLang

section

variable {ts rest : List Token} {e : Expr}

/-- An expression derives what is read of it. -/
theorem parseExpr_sound (h : Yields (parseExpr ts) e rest) : Derived (IsExpr .top) ts e rest :=
  parseLevel_sound .top ts h

/-! ## Parts of statements -/

/-- The tokens behind the name in a declaration. -/
def AreInitial : List Kind → Option Expr → Prop
  | ks, none => ks = []
  | ks, some e => ∃ ls, ks = .mark .equal :: ls ∧ IsExpr .top ls e

/-- Behind a type and a name these tokens make a declaration. -/
theorem AreInitial.isDeclaration {ks : List Kind} {initial : Option Expr}
    (h : AreInitial ks initial) (type : Ty) (name : String) :
    IsDeclaration (type.kind :: .identifier name :: ks ++ [.mark .semicolon])
      ⟨type, name, initial⟩ := by
  cases initial with
  | none =>
    cases h
    exact .bare
  | some e =>
    obtain ⟨ls, rfl, he⟩ := h
    exact .initialised he

/-- The first value of a variable, if there is one, derives what is read. -/
theorem parseInitial_sound {initial : Option Expr} (h : Yields (parseInitial ts) initial rest) :
    Derived AreInitial ts initial rest := by
  rw [parseInitial] at h
  rcases skip?_cases (k := .mark .equal) (by rintro ⟨⟩) ts with
    ⟨hnone, -⟩ | ⟨mid, hlt, hsome, hequal⟩
  · rw [hnone] at h
    obtain ⟨rfl, rfl⟩ := h.of_ok
    exact ⟨[], .nil, rfl⟩
  · rw [hsome] at h
    obtain ⟨e, _, _, he, h⟩ := h.of_bind
    obtain ⟨rfl, rfl⟩ := h.of_ok
    obtain ⟨ks, hks, he⟩ := parseExpr_sound he
    exact ⟨_, hequal.trans hks, ks, rfl, he⟩

/-- Behind its type a declaration derives what is read. -/
theorem parseDeclaration_sound {type : Ty} {s : Stmt}
    (h : Yields (parseDeclaration type ts) s rest) :
    ∃ ks d, Reads ts ks rest ∧ s = .declare d ∧ d.type = type ∧
      IsDeclaration (type.kind :: ks) d := by
  rw [parseDeclaration] at h
  obtain ⟨name, mid, _, hname, h⟩ := h.of_bind
  obtain ⟨initial, mid', _, hinitial, h⟩ := h.of_bind
  obtain ⟨_, _, _, hend, h⟩ := h.of_bind
  obtain ⟨rfl, rfl⟩ := h.of_ok
  have hname := reads_of_parseName hname
  obtain ⟨ks, hks, hinitial⟩ := parseInitial_sound hinitial
  have hend := reads_of_expect (by rintro ⟨⟩) hend
  exact ⟨_, _, (hname.trans hks).trans hend, rfl, rfl, hinitial.isDeclaration type name⟩

theorem isTarget_targetOf (head : String) (path : List String) :
    IsTarget (.identifier head :: segmentKinds path) (targetOf head path) := by
  rcases path with _ | ⟨segment, path⟩
  · exact .var
  · exact .member (by rintro ⟨⟩)

/-- Behind its first name an assignment or a call derives what is read. -/
theorem parseEffect_sound {head : String} {s : Stmt} (h : Yields (parseEffect head ts) s rest) :
    Derived (fun ks s => IsStmt (.identifier head :: ks) s) ts s rest := by
  rw [parseEffect] at h
  obtain ⟨path, mid, _, hpath, h⟩ := h.of_bind
  have hpath := parsePath_sound ts hpath
  dsimp only at h
  rcases skip?_cases (k := .mark .leftParen) (by rintro ⟨⟩) mid with
    ⟨hnone, -⟩ | ⟨mid', _, hsome, hopen⟩
  · rw [hnone] at h
    rcases skip?_cases (k := .mark .equal) (by rintro ⟨⟩) mid with
      ⟨hnone, -⟩ | ⟨mid', _, hsome, hequal⟩
    · rw [hnone] at h
      exact absurd h Yields.not_wanted
    · rw [hsome] at h
      obtain ⟨e, _, _, he, h⟩ := h.of_bind
      obtain ⟨_, _, _, hend, h⟩ := h.of_bind
      obtain ⟨rfl, rfl⟩ := h.of_ok
      obtain ⟨ks, hks, he⟩ := parseExpr_sound he
      have hend := reads_of_expect (by rintro ⟨⟩) hend
      exact ⟨_, (hpath.trans (hequal.trans hks)).trans hend, .assign (isTarget_targetOf _ _) he⟩
  · rw [hsome] at h
    obtain ⟨arguments, _, _, harguments, h⟩ := h.of_bind
    obtain ⟨_, _, _, hend, h⟩ := h.of_bind
    obtain ⟨rfl, rfl⟩ := h.of_ok
    obtain ⟨_, hks, ls, rfl, harguments⟩ := parseArguments_sound mid' harguments
    have hend := reads_of_expect (by rintro ⟨⟩) hend
    refine ⟨_, hpath.trans ((hopen.trans hks).trans hend), ?_⟩
    have hcall := IsStmt.call (isTarget_targetOf head path) harguments
    simpa [Parsed.after] using hcall

/-- A condition derives what is read, its parentheses included. -/
theorem parseCondition_sound {opening closing : Expectation}
    (h : Yields (parseCondition opening closing ts) e rest) : Derived IsCondition ts e rest := by
  rw [parseCondition] at h
  obtain ⟨_, _, _, hopen, h⟩ := h.of_bind
  obtain ⟨_, _, _, he, h⟩ := h.of_bind
  obtain ⟨_, _, _, hclose, h⟩ := h.of_bind
  obtain ⟨rfl, rfl⟩ := h.of_ok
  have hopen := reads_of_expect (by rintro ⟨⟩) hopen
  obtain ⟨ks, hks, he⟩ := parseExpr_sound he
  have hclose := reads_of_expect (by rintro ⟨⟩) hclose
  exact ⟨_, (hopen.trans hks).trans hclose, .mk he⟩

/-- The token of an opening. -/
def Opening.kind : Opening → Kind
  | conditional => .keyword .ifWord
  | loop => .keyword .whileWord
  | result => .keyword .returnWord
  | block => .mark .leftBrace

/-- A token that opens a statement is that of one of the constructs. -/
theorem opening?_eq_some {k : Kind} {opening : Opening} (h : opening? k = some opening) :
    k = opening.kind := by
  simp only [opening?] at h
  split at h <;> cases h <;> rfl

end

/-! ## Statements -/

/-- The tokens are a block without its opening brace. -/
def IsOpenBlock (ks : List Kind) (body : List Stmt) : Prop :=
  IsBlock (.mark .leftBrace :: ks) body

mutual

/-- A block derives what is read. -/
theorem parseBlock_sound {body : List Stmt} {rest : List Token} (ts : List Token)
    (h : Yields (parseBlock ts) body rest) : Derived IsBlock ts body rest := by
  rw [parseBlock] at h
  obtain ⟨_, mid, hlt, hopen, h⟩ := h.of_bind
  obtain ⟨body, _, _, hbody, h⟩ := h.of_bind
  obtain ⟨rfl, rfl⟩ := h.of_ok
  have hopen := reads_of_expect (by rintro ⟨⟩) hopen
  obtain ⟨ks, hks, hbody⟩ := parseBody_sound mid hbody
  exact ⟨_, hopen.trans hks, hbody⟩
termination_by 4 * ts.length

/-- A block derives what is read behind its opening brace. -/
theorem parseBody_sound {body : List Stmt} {rest : List Token} (ts : List Token)
    (h : Yields (parseBody ts) body rest) : Derived IsOpenBlock ts body rest := by
  rw [parseBody] at h
  obtain ⟨body, mid, _, hbody, h⟩ := h.of_bind
  obtain ⟨_, _, _, hclose, h⟩ := h.of_bind
  obtain ⟨rfl, rfl⟩ := h.of_ok
  obtain ⟨ks, hks, hbody⟩ := parseStatements_sound ts hbody
  have hclose := reads_of_expect (by rintro ⟨⟩) hclose
  exact ⟨_, hks.trans hclose, .mk hbody⟩
termination_by 4 * ts.length + 2

/-- Statements derive what is read. -/
theorem parseStatements_sound {body : List Stmt} {rest : List Token} (ts : List Token)
    (h : Yields (parseStatements ts) body rest) : Derived AreStmts ts body rest := by
  rw [parseStatements] at h
  rcases hfirst : parseStatement? ts with e | _ | ⟨s, mid, hlt⟩ <;> rw [hfirst] at h
  · exact absurd h Yields.not_error
  · obtain ⟨rfl, rfl⟩ := h.of_ok
    exact ⟨[], .nil, .nil⟩
  · obtain ⟨more, _, _, hmore, h⟩ := h.of_bind
    obtain ⟨rfl, rfl⟩ := h.of_ok
    obtain ⟨ks, hks, hs⟩ := parseStatement?_sound ts ⟨hlt, hfirst⟩
    obtain ⟨ls, hls, hmore⟩ := parseStatements_sound mid hmore
    exact ⟨_, hks.trans hls, .cons hs hmore⟩
termination_by 4 * ts.length + 1

/-- If a statement is found, it derives what is read. -/
theorem parseStatement?_sound {s : Stmt} {rest : List Token} (ts : List Token)
    (h : Finds (parseStatement? ts) s rest) : Derived IsStmt ts s rest := by
  rw [parseStatement?] at h
  rcases accept?_cases opening? rfl ts with
    ⟨hnone, -⟩ | ⟨k, opening, mid, hlt, hsome, hopening, hk⟩
  · rw [hnone] at h
    dsimp only at h
    rcases leadingType?_cases false ts with hnone | ⟨type, mid, hlt, hsome, htype, hvoid⟩
    · rw [hnone] at h
      rcases accept?_cases Kind.name? rfl ts with
        ⟨hnone, -⟩ | ⟨k, head, mid, hlt, hsome, hhead, hk⟩
      · rw [hnone] at h
        obtain ⟨_, h⟩ := h
        cases h
      · rw [hsome] at h
        obtain ⟨s, _, _, hs, h⟩ := h.of_bind
        obtain ⟨rfl, rfl⟩ := h.of_ok
        obtain ⟨ks, hks, hs⟩ := parseEffect_sound hs
        obtain rfl := Kind.name?_eq_some hhead
        exact ⟨_, hk.trans hks, hs⟩
    · rw [hsome] at h
      obtain ⟨s, _, _, hs, h⟩ := h.of_bind
      obtain ⟨rfl, rfl⟩ := h.of_ok
      obtain ⟨ks, d, hks, rfl, rfl, hd⟩ := parseDeclaration_sound hs
      exact ⟨_, htype.trans hks, .declare (fun h => by cases hvoid h) hd⟩
  · rw [hsome] at h
    obtain rfl := opening?_eq_some hopening
    cases opening with
    | conditional =>
      obtain ⟨condition, mid₁, _, hcondition, h⟩ := h.of_bind
      obtain ⟨body, mid₂, _, hbody, h⟩ := h.of_bind
      obtain ⟨ks, hks, hcondition⟩ := parseCondition_sound hcondition
      obtain ⟨ls, hls, hbody⟩ := parseBlock_sound mid₁ hbody
      dsimp only at h
      rcases skip?_cases (k := .keyword .elseWord) (by rintro ⟨⟩) mid₂ with
        ⟨hnone, -⟩ | ⟨mid₃, _, hsome, helse⟩
      · rw [hnone] at h
        obtain ⟨rfl, rfl⟩ := h.of_ok
        exact ⟨_, (hk.trans hks).trans hls, .ifThen hcondition hbody⟩
      · rw [hsome] at h
        obtain ⟨otherwise, _, _, hotherwise, h⟩ := h.of_bind
        obtain ⟨rfl, rfl⟩ := h.of_ok
        obtain ⟨ms, hms, hotherwise⟩ := parseBlock_sound mid₃ hotherwise
        exact ⟨_, ((hk.trans hks).trans hls).trans (helse.trans hms),
          .ifElse hcondition hbody hotherwise⟩
    | loop =>
      obtain ⟨condition, mid₁, _, hcondition, h⟩ := h.of_bind
      obtain ⟨body, _, _, hbody, h⟩ := h.of_bind
      obtain ⟨rfl, rfl⟩ := h.of_ok
      obtain ⟨ks, hks, hcondition⟩ := parseCondition_sound hcondition
      obtain ⟨ls, hls, hbody⟩ := parseBlock_sound mid₁ hbody
      exact ⟨_, (hk.trans hks).trans hls, .loop hcondition hbody⟩
    | result =>
      obtain ⟨e, _, _, he, h⟩ := h.of_bind
      obtain ⟨_, _, _, hend, h⟩ := h.of_bind
      obtain ⟨rfl, rfl⟩ := h.of_ok
      obtain ⟨ks, hks, he⟩ := parseExpr_sound he
      have hend := reads_of_expect (by rintro ⟨⟩) hend
      exact ⟨_, (hk.trans hks).trans hend, .ret he⟩
    | block =>
      obtain ⟨body, _, _, hbody, h⟩ := h.of_bind
      obtain ⟨rfl, rfl⟩ := h.of_ok
      obtain ⟨ks, hks, hbody⟩ := parseBody_sound mid hbody
      exact ⟨_, hk.trans hks, .block hbody⟩
termination_by 4 * ts.length

end

end ClassLang
