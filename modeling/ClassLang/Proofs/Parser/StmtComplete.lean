import ClassLang.Proofs.Parser.ExprComplete
import ClassLang.Proofs.Parser.StmtSound

/-!
# What derives a statement is parsed as it

Only one thing can take a statement further: the word `else` behind a block
with a condition. No statement starts with it and neither does the brace that
closes a block, so within a block the question does not come up.
-/

namespace ClassLang

/-! ## Parts of statements -/

section

variable {ts mid rest : List Token} {e : Expr}

theorem parseExpr_complete (h : Derived (IsExpr .top) ts e rest) (hends : Level.top.Ends rest) :
    Yields (parseExpr ts) e rest :=
  parseLevel_complete h hends

theorem AreInitial.starts {ks : List Kind} {initial : Option Expr} (h : AreInitial ks initial)
    {k : Kind} (hks : Reads ts ks mid) (hend : Reads mid [k] rest) :
    (peek ts).kind = .mark .equal ∨ (peek ts).kind = k := by
  cases initial with
  | none =>
    cases h
    cases hks
    exact .inr hend.peek_eq
  | some e =>
    obtain ⟨ls, rfl, -⟩ := h
    exact .inl hks.peek_eq

theorem parseInitial_complete {initial : Option Expr} (h : Derived AreInitial ts initial mid)
    (hend : Reads mid [.mark .semicolon] rest) : Yields (parseInitial ts) initial mid := by
  obtain ⟨ks, hks, hinitial⟩ := h
  cases initial with
  | none =>
    cases hinitial
    cases hks
    rw [parseInitial, skip?_of_peek (by rw [hend.peek_eq]; rintro ⟨⟩)]
    exact .ok
  | some e =>
    obtain ⟨ls, rfl, he⟩ := hinitial
    obtain ⟨_, hequal, hls⟩ := Reads.cons_iff.mp hks
    obtain ⟨_, hskip⟩ := skip?_of_reads hequal
    rw [parseInitial, hskip]
    exact (parseExpr_complete ⟨ls, hls, he⟩ (ends_of_peek hend.peek_eq (by decide))).bind
      fun _ => .ok

/-- The tokens of a declaration: a type, a name, what it starts out as, and a
semicolon. -/
theorem IsDeclaration.parts {ks : List Kind} {d : Declaration} (h : IsDeclaration ks d) :
    ∃ ls, ks = d.type.kind :: .identifier d.name :: ls ++ [.mark .semicolon] ∧
      AreInitial ls d.initial := by
  cases h with
  | bare => exact ⟨[], rfl, rfl⟩
  | initialised he => exact ⟨_, rfl, _, rfl, he⟩

/-- What the tokens of a declaration are read as. -/
theorem IsDeclaration.reads {ks : List Kind} {d : Declaration} (h : IsDeclaration ks d)
    (hks : Reads ts ks rest) :
    ∃ mid₁ mid₂ mid₃, Reads ts [d.type.kind] mid₁ ∧ Reads mid₁ [.identifier d.name] mid₂ ∧
      Derived AreInitial mid₂ d.initial mid₃ ∧ Reads mid₃ [.mark .semicolon] rest := by
  obtain ⟨ls, rfl, hinitial⟩ := h.parts
  obtain ⟨mid₃, hks, hend⟩ := Reads.append_iff.mp hks
  obtain ⟨mid₁, htype, hks⟩ := Reads.cons_iff.mp hks
  obtain ⟨mid₂, hname, hks⟩ := Reads.cons_iff.mp hks
  exact ⟨mid₁, mid₂, mid₃, htype, hname, ⟨ls, hks, hinitial⟩, hend⟩

theorem parseDeclaration_complete {d : Declaration} {mid' : List Token}
    (hname : Reads ts [.identifier d.name] mid) (hinitial : Derived AreInitial mid d.initial mid')
    (hend : Reads mid' [.mark .semicolon] rest) :
    Yields (parseDeclaration d.type ts) (.declare d) rest := by
  rw [parseDeclaration]
  exact (parseName_of_reads hname).bind fun _ => (parseInitial_complete hinitial hend).bind
    fun _ => (expect_of_reads hend).bind fun _ => .ok

/-- The tokens of a target: a name and the path behind it. -/
theorem IsTarget.parts {ks : List Kind} {target : Target} (h : IsTarget ks target) :
    ∃ head path, ks = .identifier head :: segmentKinds path ∧ target = targetOf head path := by
  cases h with
  | var => exact ⟨_, [], rfl, rfl⟩
  | member hpath =>
    refine ⟨_, _, rfl, ?_⟩
    rw [targetOf, if_neg (by simpa using hpath)]

/-- Behind a name and its path stands what takes them for a target. -/
theorem segments_next {path : List String} {k : Kind} (hk : k.isIdentifier = false)
    (hpath : Reads ts (segmentKinds path) mid) (hnext : Reads mid [k] rest) :
    (peek ts).kind.isIdentifier = false := by
  cases path with
  | nil =>
    cases hpath
    rw [hnext.peek_eq, hk]
  | cons segment path =>
    rw [hpath.peek_eq]
    rfl

theorem parseEffect_assign {head : String} {path : List String} {mid' mid'' : List Token}
    (hpath : Reads ts (segmentKinds path) mid) (hequal : Reads mid [.mark .equal] mid')
    (he : Derived (IsExpr .top) mid' e mid'') (hend : Reads mid'' [.mark .semicolon] rest) :
    Yields (parseEffect head ts) (.assign (targetOf head path) e) rest := by
  obtain ⟨_, hskip⟩ := skip?_of_reads hequal
  rw [parseEffect]
  refine (parsePath_complete hpath (by rw [hequal.peek_eq]; rintro ⟨⟩)).bind fun _ => ?_
  dsimp only
  rw [skip?_of_peek (by rw [hequal.peek_eq]; rintro ⟨⟩), hskip]
  exact (parseExpr_complete he (ends_of_peek hend.peek_eq (by decide))).bind fun _ =>
    (expect_of_reads hend).bind fun _ => .ok

theorem parseEffect_call {head : String} {path : List String} {arguments : List Expr}
    {mid' mid'' : List Token} (hpath : Reads ts (segmentKinds path) mid)
    (hopen : Reads mid [.mark .leftParen] mid')
    (harguments : Derived AreClosedArguments mid' arguments mid'')
    (hend : Reads mid'' [.mark .semicolon] rest) :
    Yields (parseEffect head ts) (.call (.call (targetOf head path) arguments)) rest := by
  obtain ⟨_, hskip⟩ := skip?_of_reads hopen
  rw [parseEffect]
  refine (parsePath_complete hpath (by rw [hopen.peek_eq]; rintro ⟨⟩)).bind fun _ => ?_
  dsimp only
  rw [hskip]
  exact (parseArguments_complete harguments).bind fun _ =>
    (expect_of_reads hend).bind fun _ => .ok

theorem parseCondition_complete {opening closing : Expectation} (h : Derived IsCondition ts e rest) :
    Yields (parseCondition opening closing ts) e rest := by
  obtain ⟨_, hks, ⟨he⟩⟩ := h
  obtain ⟨_, hks, hclose⟩ := Reads.append_iff.mp hks
  obtain ⟨_, hopen, hks⟩ := Reads.cons_iff.mp hks
  rw [parseCondition]
  exact (expect_of_reads hopen).bind fun _ =>
    (parseExpr_complete ⟨_, hks, he⟩ (ends_of_peek hclose.peek_eq (by decide))).bind fun _ =>
      (expect_of_reads hclose).bind fun _ => .ok

end

/-! ## What statements start with -/

theorem isStmt_starts {ks : List Kind} {s : Stmt} (h : IsStmt ks s) :
    ∃ k ls, ks = k :: ls ∧ k ≠ .keyword .elseWord := by
  cases h with
  | @declare _ d _ hd =>
    obtain ⟨ls, rfl, -⟩ := hd.parts
    refine ⟨_, _, rfl, ?_⟩
    cases d.type <;> rintro ⟨⟩
  -- A target starts with a name, whatever follows.
  | assign htarget _ | call htarget _ =>
    obtain ⟨head, path, rfl, -⟩ := htarget.parts
    exact ⟨_, _, rfl, by rintro ⟨⟩⟩
  | block h =>
    cases h with
    | mk _ => exact ⟨_, _, rfl, by rintro ⟨⟩⟩
  | _ => exact ⟨_, _, rfl, by rintro ⟨⟩⟩

/-- In front of the brace that closes a block, statements or not, there is no
`else`. -/
theorem areStmts_starts {ks : List Kind} {body : List Stmt} (h : AreStmts ks body)
    {ts mid rest : List Token} (hks : Reads ts ks mid)
    (hclose : Reads mid [.mark .rightBrace] rest) : (peek ts).kind ≠ .keyword .elseWord := by
  cases h with
  | nil =>
    cases hks
    rw [hclose.peek_eq]
    rintro ⟨⟩
  | cons hs _ =>
    obtain ⟨k, ls, rfl, hk⟩ := isStmt_starts hs
    rw [hks.peek_eq]
    exact hk

/-! ## One step of parsing -/

section

variable {ts mid mid' rest : List Token} {body otherwise : List Stmt} {e : Expr} {s : Stmt}

/-- Where a block closes, no statement starts. -/
theorem parseStatement?_none (hclose : Reads ts [.mark .rightBrace] rest) :
    parseStatement? ts = .ok none := by
  have hpeek := hclose.peek_eq
  rw [parseStatement?, accept?_of_peek (by rw [hpeek]; rfl),
    leadingType?_of_peek (by rw [hpeek]; rfl) (by rw [hpeek]; rfl),
    accept?_of_peek (by rw [hpeek]; rfl)]
  rfl

theorem parseStatements_nil (hclose : Reads ts [.mark .rightBrace] rest) :
    Yields (parseStatements ts) [] ts := by
  rw [parseStatements, parseStatement?_none hclose]
  exact .ok

theorem parseStatements_cons (hs : Finds (parseStatement? ts) s mid)
    (hbody : Yields (parseStatements mid) body rest) :
    Yields (parseStatements ts) (s :: body) rest := by
  obtain ⟨_, hs⟩ := hs
  rw [parseStatements, hs]
  exact hbody.bind (f := fun x => .ok _) fun _ => .ok

theorem parseBody_of (hbody : Yields (parseStatements ts) body mid)
    (hclose : Reads mid [.mark .rightBrace] rest) : Yields (parseBody ts) body rest := by
  rw [parseBody]
  exact hbody.bind fun _ => (expect_of_reads hclose).bind fun _ => .ok

theorem parseBlock_of (hopen : Reads ts [.mark .leftBrace] mid)
    (hbody : Yields (parseBody mid) body rest) : Yields (parseBlock ts) body rest := by
  rw [parseBlock]
  exact (expect_of_reads hopen).bind fun _ => hbody.bind fun _ => .ok

/-- A statement that its first token says to be one. -/
theorem accept?_opening (opening : Opening) (h : Reads ts [opening.kind] mid) :
    ∃ hlt, accept? opening? ts = some ⟨opening, mid, hlt⟩ :=
  accept?_of_reads _ h (by cases opening <;> rfl)

theorem parseStatement?_ifThen (hif : Reads ts [.keyword .ifWord] mid)
    (hcondition : Derived IsCondition mid e mid') (hbody : Yields (parseBlock mid') body rest)
    (helse : (peek rest).kind ≠ .keyword .elseWord) :
    Finds (parseStatement? ts) (.ifThen e body) rest := by
  obtain ⟨_, haccept⟩ := accept?_opening .conditional hif
  rw [parseStatement?, haccept]
  refine .bind (parseCondition_complete hcondition) fun _ => .bind hbody fun _ => ?_
  dsimp only
  rw [skip?_of_peek helse]
  exact .ok

theorem parseStatement?_ifElse {mid₃ mid₄ : List Token} (hif : Reads ts [.keyword .ifWord] mid)
    (hcondition : Derived IsCondition mid e mid') (hbody : Yields (parseBlock mid') body mid₃)
    (helse : Reads mid₃ [.keyword .elseWord] mid₄)
    (hotherwise : Yields (parseBlock mid₄) otherwise rest) :
    Finds (parseStatement? ts) (.ifElse e body otherwise) rest := by
  obtain ⟨_, haccept⟩ := accept?_opening .conditional hif
  obtain ⟨_, hskip⟩ := skip?_of_reads helse
  rw [parseStatement?, haccept]
  refine .bind (parseCondition_complete hcondition) fun _ => .bind hbody fun _ => ?_
  dsimp only
  rw [hskip]
  exact .bind hotherwise fun _ => .ok

theorem parseStatement?_loop (hwhile : Reads ts [.keyword .whileWord] mid)
    (hcondition : Derived IsCondition mid e mid') (hbody : Yields (parseBlock mid') body rest) :
    Finds (parseStatement? ts) (.loop e body) rest := by
  obtain ⟨_, haccept⟩ := accept?_opening .loop hwhile
  rw [parseStatement?, haccept]
  exact .bind (parseCondition_complete hcondition) fun _ => .bind hbody fun _ => .ok

theorem parseStatement?_ret (hreturn : Reads ts [.keyword .returnWord] mid)
    (he : Derived (IsExpr .top) mid e mid') (hend : Reads mid' [.mark .semicolon] rest) :
    Finds (parseStatement? ts) (.ret e) rest := by
  obtain ⟨_, haccept⟩ := accept?_opening .result hreturn
  rw [parseStatement?, haccept]
  exact .bind (parseExpr_complete he (ends_of_peek hend.peek_eq (by decide))) fun _ =>
    .bind (expect_of_reads hend) fun _ => .ok

theorem parseStatement?_block (hopen : Reads ts [.mark .leftBrace] mid)
    (hbody : Yields (parseBody mid) body rest) :
    Finds (parseStatement? ts) (.block body) rest := by
  obtain ⟨_, haccept⟩ := accept?_opening .block hopen
  rw [parseStatement?, haccept]
  exact .bind hbody fun _ => .ok

theorem parseStatement?_declare {ks : List Kind} {d : Declaration} (hvoid : d.type ≠ .void)
    (hd : IsDeclaration ks d) (hks : Reads ts ks rest) :
    Finds (parseStatement? ts) (.declare d) rest := by
  obtain ⟨mid₁, mid₂, mid₃, htype, hname, hinitial, hend⟩ := hd.reads hks
  obtain ⟨_, hleading⟩ := leadingType?_of_reads false htype hname
    (fun h => absurd h hvoid)
  have hopening : opening? (peek ts).kind = none := by
    rw [htype.peek_eq]
    cases d.type <;> rfl
  rw [parseStatement?, accept?_of_peek hopening, hleading]
  exact .bind (parseDeclaration_complete hname hinitial hend) fun _ => .ok

/-- A statement that starts with a name alone. -/
theorem parseStatement?_effect {head : String} (hhead : Reads ts [.identifier head] mid)
    (hnext : (peek mid).kind.isIdentifier = false) (hs : Yields (parseEffect head mid) s rest) :
    Finds (parseStatement? ts) s rest := by
  obtain ⟨_, haccept⟩ := accept?_of_reads Kind.name? hhead rfl
  rw [parseStatement?, accept?_of_peek (by rw [hhead.peek_eq]; rfl),
    leadingType?_of_name hhead hnext, haccept]
  exact .bind hs fun _ => .ok

end

/-! ## Derivations -/

/-- What is to be shown of a statement: parsing finds it, unless an `else`
behind it takes it further. -/
def CompletesStmt (ks : List Kind) (s : Stmt) : Prop :=
  ∀ ⦃ts rest⦄, Reads ts ks rest → (peek rest).kind ≠ .keyword .elseWord →
    Finds (parseStatement? ts) s rest

/-- What is to be shown of statements: parsing reads them up to the brace that
closes the block. -/
def CompletesStmts (ks : List Kind) (body : List Stmt) : Prop :=
  ∀ ⦃ts mid rest⦄, Reads ts ks mid → Reads mid [.mark .rightBrace] rest →
    Yields (parseStatements ts) body mid

/-- What is to be shown of a block: parsing reads its brace, and then what is
behind it. -/
def CompletesBlock (ks : List Kind) (body : List Stmt) : Prop :=
  ∀ ⦃ts rest⦄, Reads ts ks rest →
    ∃ mid, Reads ts [.mark .leftBrace] mid ∧ Yields (parseBody mid) body rest

theorem CompletesBlock.yields {ks : List Kind} {body : List Stmt} (h : CompletesBlock ks body)
    {ts rest : List Token} (hks : Reads ts ks rest) : Yields (parseBlock ts) body rest := by
  obtain ⟨mid, hopen, hbody⟩ := h hks
  exact parseBlock_of hopen hbody

mutual

theorem completes_isStmt {ks : List Kind} {s : Stmt} (h : IsStmt ks s) : CompletesStmt ks s := by
  match h with
  | .declare hvoid hd => exact fun ts rest hks _ => parseStatement?_declare hvoid hd hks
  | .assign htarget he =>
    intro ts rest h _
    obtain ⟨head, path, rfl, rfl⟩ := htarget.parts
    obtain ⟨mid₃, h, hend⟩ := Reads.append_iff.mp h
    obtain ⟨mid₁, hks, h⟩ := Reads.append_iff.mp h
    obtain ⟨mid₂, hequal, hls⟩ := Reads.cons_iff.mp h
    obtain ⟨mid, hhead, hpath⟩ := Reads.cons_iff.mp hks
    exact parseStatement?_effect hhead (segments_next rfl hpath hequal)
      (parseEffect_assign hpath hequal ⟨_, hls, he⟩ hend)
  | @IsStmt.call _ ls _ _ htarget harguments =>
    intro ts rest h _
    obtain ⟨head, path, rfl, rfl⟩ := htarget.parts
    obtain ⟨mid₃, h, hend⟩ := Reads.append_iff.mp h
    obtain ⟨mid₄, hclose, hend⟩ := Reads.cons_iff.mp hend
    obtain ⟨mid₁, hks, h⟩ := Reads.append_iff.mp h
    obtain ⟨mid₂, hopen, hls⟩ := Reads.cons_iff.mp h
    obtain ⟨mid, hhead, hpath⟩ := Reads.cons_iff.mp hks
    exact parseStatement?_effect hhead (segments_next rfl hpath hopen)
      (parseEffect_call hpath hopen ⟨_, hls.trans hclose, ls, rfl, harguments⟩ hend)
  | .ret he =>
    intro ts rest h _
    obtain ⟨mid', h, hend⟩ := Reads.append_iff.mp h
    obtain ⟨mid, hreturn, hks⟩ := Reads.cons_iff.mp h
    exact parseStatement?_ret hreturn ⟨_, hks, he⟩ hend
  | .ifThen hcondition hbody =>
    intro ts rest h helse
    obtain ⟨mid', h, hls⟩ := Reads.append_iff.mp h
    obtain ⟨mid, hif, hks⟩ := Reads.cons_iff.mp h
    exact parseStatement?_ifThen hif ⟨_, hks, hcondition⟩ ((completes_isBlock hbody).yields hls)
      helse
  | .ifElse hcondition hbody hotherwise =>
    intro ts rest h _
    obtain ⟨mid₃, h, hms⟩ := Reads.append_iff.mp h
    obtain ⟨mid₄, helse, hms⟩ := Reads.cons_iff.mp hms
    obtain ⟨mid', h, hls⟩ := Reads.append_iff.mp h
    obtain ⟨mid, hif, hks⟩ := Reads.cons_iff.mp h
    exact parseStatement?_ifElse hif ⟨_, hks, hcondition⟩ ((completes_isBlock hbody).yields hls)
      helse ((completes_isBlock hotherwise).yields hms)
  | .loop hcondition hbody =>
    intro ts rest h _
    obtain ⟨mid', h, hls⟩ := Reads.append_iff.mp h
    obtain ⟨mid, hwhile, hks⟩ := Reads.cons_iff.mp h
    exact parseStatement?_loop hwhile ⟨_, hks, hcondition⟩ ((completes_isBlock hbody).yields hls)
  | .block hbody =>
    intro ts rest hks _
    obtain ⟨mid, hopen, hbody⟩ := completes_isBlock hbody hks
    exact parseStatement?_block hopen hbody

theorem completes_isBlock {ks : List Kind} {body : List Stmt} (h : IsBlock ks body) :
    CompletesBlock ks body := by
  match h with
  | .mk hbody =>
    intro ts rest h
    obtain ⟨mid', h, hclose⟩ := Reads.append_iff.mp h
    obtain ⟨mid, hopen, hks⟩ := Reads.cons_iff.mp h
    exact ⟨mid, hopen, parseBody_of (completes_areStmts hbody hks hclose) hclose⟩

theorem completes_areStmts {ks : List Kind} {body : List Stmt} (h : AreStmts ks body) :
    CompletesStmts ks body := by
  match h with
  | .nil =>
    intro ts mid rest hks hclose
    cases hks
    exact parseStatements_nil hclose
  | .cons hs hrest =>
    intro ts mid rest h hclose
    obtain ⟨mid', hks, hls⟩ := Reads.append_iff.mp h
    exact parseStatements_cons (completes_isStmt hs hks (areStmts_starts hrest hls hclose))
      (completes_areStmts hrest hls hclose)

end

/-- **Whatever derives a block is parsed as it.** -/
theorem parseBlock_complete {ts rest : List Token} {body : List Stmt}
    (h : Derived IsBlock ts body rest) : Yields (parseBlock ts) body rest := by
  obtain ⟨ks, hks, hbody⟩ := h
  exact (completes_isBlock hbody).yields hks

end ClassLang
