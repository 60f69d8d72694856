import ClassLang.Proofs.Parser.ExprSound

/-!
# What derives an expression is parsed as it

A derivation says nothing about what stands behind its tokens, while parsing
goes on as long as it can. So the claim is for tokens behind which nothing
stands that would take an expression of the level further: `Level.Ends`. How far
a token can take an expression is its `Kind.looseness`.

A derivation of a chain groups to the left, while parsing collects the operands
from left to right. So for chains the claim is that parsing reaches what it
reaches from behind the chain with the chain as the expression so far
(`Completes`). The proof is by induction on the derivation.
-/

namespace ClassLang

/-! ## What takes an expression further -/

/-- The rank of the level at which a token takes an expression further, above
all levels if there is none. -/
def Kind.looseness : Kind → Nat
  | .mark .dot | .mark .leftParen => 1
  | .mark .star | .mark .slash => 2
  | .mark .plus | .mark .minus => 3
  | .mark .less | .mark .lessEqual | .mark .greater | .mark .greaterEqual => 5
  | .mark .equalEqual | .mark .bangEqual => 6
  | .mark .ampersand => 7
  | .mark .pipe => 8
  | _ => 9

/-- The next token does not take an expression of the level further. -/
def Level.Ends (level : Level) (ts : List Token) : Prop :=
  level.rank < (peek ts).kind.looseness

section

variable {level level' : Level} {ts : List Token}

/-- What ends a loose level ends the tighter ones. -/
theorem Level.Ends.of_rank_le (hle : level'.rank ≤ level.rank) (h : level.Ends ts) :
    level'.Ends ts :=
  Nat.lt_of_le_of_lt hle h

theorem Level.Ends.operand {c : Chain} (h : (Level.chain c).Ends ts) : c.operand.Ends ts :=
  h.of_rank_le (Nat.le_of_lt c.rank_operand_lt)

theorem Level.Ends.operator?_eq_none {c : Chain} (h : (Level.chain c).Ends ts) :
    c.operator? (peek ts).kind = none := by
  rw [Level.Ends] at h
  unfold Chain.operator?
  split
  case h_7 => rfl
  all_goals
    next hkind =>
      rw [hkind] at h
      exact absurd h (by decide)

theorem Level.Ends.equalityOp?_eq_none (h : Level.equality.Ends ts) :
    equalityOp? (peek ts).kind = none := by
  rw [Level.Ends] at h
  unfold equalityOp?
  split
  case h_3 => rfl
  all_goals
    next hkind =>
      rw [hkind] at h
      exact absurd h (by decide)

theorem Level.Ends.relationOp?_eq_none (h : Level.relation.Ends ts) :
    relationOp? (peek ts).kind = none := by
  rw [Level.Ends] at h
  unfold relationOp?
  split
  case h_5 => rfl
  all_goals
    next hkind =>
      rw [hkind] at h
      exact absurd h (by decide)

theorem Level.Ends.ne_dot (h : Level.primary.Ends ts) : (peek ts).kind ≠ .mark .dot := by
  intro hkind
  rw [Level.Ends, hkind] at h
  exact absurd h (by decide)

theorem Level.Ends.ne_leftParen (h : Level.primary.Ends ts) :
    (peek ts).kind ≠ .mark .leftParen := by
  intro hkind
  rw [Level.Ends, hkind] at h
  exact absurd h (by decide)

theorem ends_of_peek {k : Kind} (hpeek : (peek ts).kind = k) (hk : level.rank < k.looseness) :
    level.Ends ts := by
  rw [Level.Ends, hpeek]
  exact hk

end

/-! ## What an expression starts with -/

/-- Can an expression of the level start with this token? -/
def Kind.startsExpr (level : Level) : Kind → Bool
  | .identifier _ | .integer _ | .double _ _ _ | .string _ | .mark .leftParen => true
  | .mark .bang | .keyword .trueWord | .keyword .falseWord => 5 ≤ level.rank
  | _ => false

/-- What starts a tight level starts the looser ones. -/
theorem Kind.startsExpr_of_rank_le {level level' : Level} {k : Kind}
    (hle : level.rank ≤ level'.rank) (h : k.startsExpr level = true) :
    k.startsExpr level' = true := by
  unfold startsExpr at h ⊢
  split at h
  case h_9 => cases h
  case h_6 | h_7 | h_8 => simpa using Nat.le_trans (by simpa using h) hle
  all_goals rfl

/-- There is a first token, and it can start an expression of the level. -/
def Starts (level : Level) (ks : List Kind) : Prop :=
  ∃ k ls, ks = k :: ls ∧ k.startsExpr level = true

theorem Starts.of_rank_le {level level' : Level} {ks : List Kind}
    (hle : level.rank ≤ level'.rank) (h : Starts level ks) : Starts level' ks := by
  obtain ⟨k, ls, rfl, hk⟩ := h
  exact ⟨k, ls, rfl, k.startsExpr_of_rank_le hle hk⟩

theorem Starts.append {level : Level} {ks : List Kind} (h : Starts level ks) (ls : List Kind) :
    Starts level (ks ++ ls) := by
  obtain ⟨k, ms, rfl, hk⟩ := h
  exact ⟨k, ms ++ ls, rfl, hk⟩

/-- An expression starts with a token, and with one that fits its level. -/
theorem isExpr_starts {level : Level} {ks : List Kind} {e : Expr} (h : IsExpr level ks e) :
    Starts level ks := by
  match h with
  | .operand (c := c) h => exact (isExpr_starts h).of_rank_le (Nat.le_of_lt c.rank_operand_lt)
  | .logic h _ | .arithmetic _ h _ => exact (isExpr_starts h).append _
  | .relation h | .sum h => exact (isExpr_starts h).of_rank_le (by decide)
  | .equality _ h _ | .comparison h _ => exact ((isExpr_starts h).of_rank_le (by decide)).append _
  | @IsExpr.truth value => exact ⟨_, _, rfl, by cases value <;> rfl⟩
  | .negation _ | .negatedComparison _ _ => exact ⟨_, _, rfl, rfl⟩
  | .integer | .decimal | .string | .var | .group _ => exact ⟨_, _, rfl, rfl⟩
  | .member _ | .call _ | .methodCall _ _ => exact ⟨_, _, rfl, rfl⟩

/-- The token that an expression starts with. -/
theorem Derived.starts {level : Level} {ts rest : List Token} {e : Expr}
    (h : Derived (IsExpr level) ts e rest) : (peek ts).kind.startsExpr level = true := by
  obtain ⟨ks, hks, he⟩ := h
  obtain ⟨k, ls, rfl, hk⟩ := isExpr_starts he
  rwa [hks.peek_eq]

/-! ## One step of parsing -/

section

variable {ts mid mid' rest : List Token} {k : Kind} {l r e : Expr}

/-- A chain ends where no operator of it follows. -/
theorem yields_parseChain_end {c : Chain} (h : c.operator? (peek ts).kind = none) :
    Yields (parseChain c l ts) l ts := by
  rw [parseChain, accept?_of_peek h]
  exact .ok

/-- An operator of the chain adds its operand, and the chain goes on. -/
theorem yields_parseChain_operator {c : Chain} {build : Expr → Expr → Expr}
    (hk : Reads ts [k] mid) (hbuild : c.operator? k = some build)
    (hr : Yields (parseLevel c.operand mid) r mid')
    (he : Yields (parseChain c (build l r) mid') e rest) :
    Yields (parseChain c l ts) e rest := by
  obtain ⟨_, haccept⟩ := accept?_of_reads _ hk hbuild
  rw [parseChain, haccept]
  exact hr.bind fun _ => he.bind fun _ => .ok

theorem yields_chain {c : Chain} (hl : Yields (parseLevel c.operand ts) l mid)
    (he : Yields (parseChain c l mid) e rest) : Yields (parseLevel (.chain c) ts) e rest := by
  rw [parseLevel]
  exact hl.bind fun _ => he.bind fun _ => .ok

theorem yields_equality_end (hl : Yields (parseLevel .relation ts) l mid)
    (h : equalityOp? (peek mid).kind = none) : Yields (parseLevel .equality ts) l mid := by
  rw [parseLevel]
  refine hl.bind fun _ => ?_
  dsimp only
  rw [accept?_of_peek h]
  exact .ok

theorem yields_equality_operator {op : BinaryOp} (hl : Yields (parseLevel .relation ts) l mid)
    (hk : Reads mid [k] mid') (hop : equalityOp? k = some op)
    (hr : Yields (parseLevel .relation mid') r rest) :
    Yields (parseLevel .equality ts) (.binary op l r) rest := by
  obtain ⟨_, haccept⟩ := accept?_of_reads _ hk hop
  rw [parseLevel]
  refine hl.bind fun _ => ?_
  dsimp only
  rw [haccept]
  exact hr.bind fun _ => .ok

theorem yields_comparison_end {negated : Bool} (hl : Yields (parseLevel (.chain .sum) ts) l mid)
    (h : relationOp? (peek mid).kind = none) :
    Yields (parseComparison negated ts) (negateIf negated l) mid := by
  rw [parseComparison]
  refine hl.bind fun _ => ?_
  dsimp only
  rw [accept?_of_peek h]
  exact .ok

theorem yields_comparison_operator {negated : Bool} {op : RelationOp}
    (hl : Yields (parseLevel (.chain .sum) ts) l mid) (hk : Reads mid [op.kind] mid')
    (hr : Yields (parseLevel (.chain .sum) mid') r rest) :
    Yields (parseComparison negated ts) (negateIf negated (.relation op negated l r)) rest := by
  have hop : relationOp? op.kind = some op := by cases op <;> rfl
  obtain ⟨_, haccept⟩ := accept?_of_reads _ hk hop
  rw [parseComparison]
  refine hl.bind fun _ => ?_
  dsimp only
  rw [haccept]
  exact hr.bind fun _ => .ok

theorem yields_relation_truth {value : Bool} (hk : Reads ts [k] rest)
    (hvalue : truthValue? k = some value) : Yields (parseLevel .relation ts) (.boolean value) rest := by
  obtain ⟨_, haccept⟩ := accept?_of_reads _ hk hvalue
  rw [parseLevel, haccept]
  exact .ok

theorem yields_relation_plain (hstarts : (peek ts).kind.startsExpr (.chain .sum) = true)
    (he : Yields (parseComparison false ts) e rest) : Yields (parseLevel .relation ts) e rest := by
  -- A relation that starts like a sum is no truth value and has no mark in front.
  have htruth : truthValue? (peek ts).kind = none := by
    unfold truthValue?
    split
    case h_3 => rfl
    all_goals
      next hkind =>
        rw [hkind] at hstarts
        cases hstarts
  have hbang : (peek ts).kind ≠ .mark .bang := by
    intro hkind
    rw [hkind] at hstarts
    cases hstarts
  rw [parseLevel, accept?_of_peek htruth, skip?_of_peek hbang]
  exact he

theorem yields_relation_negated (hbang : Reads ts [.mark .bang] mid)
    (he : Yields (parseComparison true mid) e rest) : Yields (parseLevel .relation ts) e rest := by
  obtain ⟨_, hskip⟩ := skip?_of_reads hbang
  rw [parseLevel, accept?_of_peek (by rw [hbang.peek_eq]; rfl), hskip]
  exact he.bind fun _ => .ok

theorem yields_primary_literal (hk : Reads ts [k] rest) (he : literal? k = some e) :
    Yields (parseLevel .primary ts) e rest := by
  obtain ⟨_, haccept⟩ := accept?_of_reads _ hk he
  rw [parseLevel, haccept]
  exact .ok

theorem yields_primary_group (hopen : Reads ts [.mark .leftParen] mid)
    (he : Yields (parseLevel .top mid) e mid') (hclose : Reads mid' [.mark .rightParen] rest) :
    Yields (parseLevel .primary ts) e rest := by
  obtain ⟨_, hskip⟩ := skip?_of_reads hopen
  rw [parseLevel, accept?_of_peek (by rw [hopen.peek_eq]; rfl), hskip]
  exact he.bind fun _ => (expect_of_reads hclose).bind fun _ => .ok

theorem yields_primary_reference {head : String} (path : List String)
    (hname : Reads ts (.identifier head :: segmentKinds path) rest) (hends : Level.primary.Ends rest) :
    Yields (parseLevel .primary ts) (reference head path) rest := by
  obtain ⟨mid, hhead, hpath⟩ := Reads.cons_iff.mp hname
  obtain ⟨_, haccept⟩ := accept?_of_reads Kind.name? hhead rfl
  rw [parseLevel, accept?_of_peek (by rw [hhead.peek_eq]; rfl),
    skip?_of_peek (by rw [hhead.peek_eq]; rintro ⟨⟩), haccept]
  refine (parsePath_complete hpath hends.ne_dot).bind fun _ => ?_
  dsimp only
  rw [skip?_of_peek hends.ne_leftParen]
  exact .ok

theorem yields_primary_call {head : String} (path : List String) {arguments : List Expr}
    (hname : Reads ts (.identifier head :: segmentKinds path) mid)
    (hopen : Reads mid [.mark .leftParen] mid')
    (harguments : Yields (parseArguments mid') arguments rest) :
    Yields (parseLevel .primary ts) (callOf head path arguments) rest := by
  obtain ⟨_, hhead, hpath⟩ := Reads.cons_iff.mp hname
  obtain ⟨_, haccept⟩ := accept?_of_reads Kind.name? hhead rfl
  obtain ⟨_, hskip⟩ := skip?_of_reads hopen
  rw [parseLevel, accept?_of_peek (by rw [hhead.peek_eq]; rfl),
    skip?_of_peek (by rw [hhead.peek_eq]; rintro ⟨⟩), haccept]
  refine (parsePath_complete hpath (by rw [hopen.peek_eq]; rintro ⟨⟩)).bind fun _ => ?_
  dsimp only
  rw [hskip]
  exact harguments.bind fun _ => .ok

theorem yields_parseArgumentList_end (he : Yields (parseLevel .top ts) e mid)
    (hclose : Reads mid [.mark .rightParen] rest) :
    Yields (parseArgumentList ts) [e] rest := by
  rw [parseArgumentList]
  refine he.bind fun _ => ?_
  dsimp only
  rw [skip?_of_peek (by rw [hclose.peek_eq]; rintro ⟨⟩)]
  exact (expect_of_reads hclose).bind fun _ => .ok

theorem yields_parseArgumentList_comma {es : List Expr} (he : Yields (parseLevel .top ts) e mid)
    (hcomma : Reads mid [.mark .comma] mid') (hes : Yields (parseArgumentList mid') es rest) :
    Yields (parseArgumentList ts) (e :: es) rest := by
  obtain ⟨_, hskip⟩ := skip?_of_reads hcomma
  rw [parseArgumentList]
  refine he.bind fun _ => ?_
  dsimp only
  rw [hskip]
  exact hes.bind fun _ => .ok

theorem yields_parseArguments_none (hclose : Reads ts [.mark .rightParen] rest) :
    Yields (parseArguments ts) [] rest := by
  obtain ⟨_, hskip⟩ := skip?_of_reads hclose
  rw [parseArguments, hskip]
  exact .ok

theorem yields_parseArguments_some {es : List Expr}
    (hstarts : (peek ts).kind.startsExpr .top = true)
    (h : Yields (parseArgumentList ts) es rest) : Yields (parseArguments ts) es rest := by
  rw [parseArguments, skip?_of_peek (fun hkind => by rw [hkind] at hstarts; cases hstarts)]
  exact h

end

/-! ## Derivations -/

/-- What is to be shown of a derivation: at the end of an expression parsing
ends with it; and behind a chain parsing goes on with the chain as the
expression so far. -/
def Completes : Level → List Kind → Expr → Prop
  | .chain c, ks, e => ∀ ⦃ts mid⦄, Reads ts ks mid → c.operand.Ends mid → ∀ ⦃e' rest⦄,
    Yields (parseChain c e mid) e' rest → Yields (parseLevel (.chain c) ts) e' rest
  | level, ks, e => ∀ ⦃ts rest⦄, Reads ts ks rest → level.Ends rest →
    Yields (parseLevel level ts) e rest

theorem Completes.yields {level : Level} {ks : List Kind} {e : Expr} (h : Completes level ks e)
    {ts rest : List Token} (hks : Reads ts ks rest) (hends : level.Ends rest) :
    Yields (parseLevel level ts) e rest := by
  cases level with
  | chain c => exact h hks hends.operand (yields_parseChain_end hends.operator?_eq_none)
  | equality | relation | primary => exact h hks hends

/-- One more operand completes a chain. -/
theorem Completes.operator {c : Chain} {k : Kind} {build : Expr → Expr → Expr} {ks ls : List Kind}
    {l r : Expr} (hbuild : c.operator? k = some build) (hk : c.operand.rank < k.looseness)
    (hl : Completes (.chain c) ks l) (hr : Completes c.operand ls r) :
    Completes (.chain c) (ks ++ k :: ls) (build l r) := by
  intro ts mid h hends e' rest he'
  obtain ⟨mid₁, hks, h⟩ := Reads.append_iff.mp h
  obtain ⟨mid₂, hread, hls⟩ := Reads.cons_iff.mp h
  -- The operator ends the chain's last operand and is the first thing that parsing
  -- finds behind the chain on the left.
  exact hl hks (ends_of_peek hread.peek_eq hk)
    (yields_parseChain_operator hread hbuild (hr.yields hls hends) he')

/-- What is to be shown of arguments, the first of which has no comma in front:
parsing reads them and the parenthesis behind them. -/
def CompletesArguments (ks : List Kind) (es : List Expr) : Prop :=
  ∀ ⦃ts mid rest⦄, Reads ts ks mid → Reads mid [.mark .rightParen] rest →
    Yields (parseArguments ts) es rest

/-- What is to be shown of further arguments: behind a first one, parsing reads
them and the parenthesis behind them. -/
def CompletesMore (ks : List Kind) (es : List Expr) : Prop :=
  ∀ ⦃ts mid mid' rest e⦄, Yields (parseLevel .top ts) e mid → Reads mid ks mid' →
    Reads mid' [.mark .rightParen] rest → Yields (parseArgumentList ts) (e :: es) rest

/-- Behind an argument stands a comma or the closing parenthesis. -/
theorem AreMoreArguments.ends {ks : List Kind} {es : List Expr} (h : AreMoreArguments ks es)
    {ts mid rest : List Token} (hks : Reads ts ks mid)
    (hclose : Reads mid [.mark .rightParen] rest) : Level.top.Ends ts := by
  cases h with
  | none =>
    cases hks
    exact ends_of_peek hclose.peek_eq (by decide)
  | some _ _ => exact ends_of_peek hks.peek_eq (by decide)

mutual

/-- What the grammar derives as an expression is parsed, wherever its level ends
behind it. -/
theorem completes_isExpr {level : Level} {ks : List Kind} {e : Expr} (h : IsExpr level ks e) :
    Completes level ks e := by
  match h with
  | .operand h =>
    intro ts mid hks hends e' rest he'
    exact yields_chain ((completes_isExpr h).yields hks hends) he'
  | @IsExpr.logic op _ _ _ _ hl hr =>
    exact .operator (by cases op <;> rfl) (by cases op <;> decide) (completes_isExpr hl)
      (completes_isExpr hr)
  | @IsExpr.arithmetic op c _ _ _ _ hlevel hl hr =>
    exact .operator (by cases op <;> cases hlevel <;> rfl) (by cases op <;> cases hlevel <;> decide)
      (completes_isExpr hl) (completes_isExpr hr)
  | .relation h =>
    intro ts rest hks hends
    exact yields_equality_end ((completes_isExpr h).yields hks (hends.of_rank_le (by decide)))
      hends.equalityOp?_eq_none
  | @IsExpr.equality op _ _ _ _ hlevel hl hr =>
    intro ts rest h hends
    obtain ⟨mid, hks, h⟩ := Reads.append_iff.mp h
    obtain ⟨mid', hop, hls⟩ := Reads.cons_iff.mp h
    have hends' : Level.relation.Ends mid := ends_of_peek hop.peek_eq
      (by cases op <;> cases hlevel <;> decide)
    exact yields_equality_operator ((completes_isExpr hl).yields hks hends') hop
      (by cases op <;> cases hlevel <;> rfl)
      ((completes_isExpr hr).yields hls (hends.of_rank_le (by decide)))
  | @IsExpr.truth value =>
    intro ts rest hk _
    exact yields_relation_truth hk (by cases value <;> rfl)
  | .sum h =>
    intro ts rest hks hends
    exact yields_relation_plain (Derived.starts ⟨_, hks, h⟩)
      (yields_comparison_end ((completes_isExpr h).yields hks (hends.of_rank_le (by decide)))
        hends.relationOp?_eq_none)
  | .negation h =>
    intro ts rest hks hends
    obtain ⟨mid, hbang, hks⟩ := Reads.cons_iff.mp hks
    exact yields_relation_negated hbang
      (yields_comparison_end ((completes_isExpr h).yields hks (hends.of_rank_le (by decide)))
        hends.relationOp?_eq_none)
  | @IsExpr.comparison op _ _ _ _ hl hr =>
    intro ts rest h hends
    obtain ⟨mid, hks, h⟩ := Reads.append_iff.mp h
    obtain ⟨mid', hop, hls⟩ := Reads.cons_iff.mp h
    have hends' : (Level.chain .sum).Ends mid := ends_of_peek hop.peek_eq (by cases op <;> decide)
    exact yields_relation_plain (Derived.starts ⟨_, hks, hl⟩)
      (yields_comparison_operator ((completes_isExpr hl).yields hks hends') hop
        ((completes_isExpr hr).yields hls (hends.of_rank_le (by decide))))
  | @IsExpr.negatedComparison op _ _ _ _ hl hr =>
    intro ts rest h hends
    obtain ⟨mid, hbang, h⟩ := Reads.cons_iff.mp h
    obtain ⟨mid₁, hks, h⟩ := Reads.append_iff.mp h
    obtain ⟨mid₂, hop, hls⟩ := Reads.cons_iff.mp h
    have hends' : (Level.chain .sum).Ends mid₁ := ends_of_peek hop.peek_eq (by cases op <;> decide)
    exact yields_relation_negated hbang
      (yields_comparison_operator ((completes_isExpr hl).yields hks hends') hop
        ((completes_isExpr hr).yields hls (hends.of_rank_le (by decide))))
  | .integer | .decimal | .string =>
    intro ts rest hk _
    exact yields_primary_literal hk rfl
  | .group h =>
    intro ts rest hks _
    obtain ⟨mid', hks, hclose⟩ := Reads.append_iff.mp hks
    obtain ⟨mid, hopen, hks⟩ := Reads.cons_iff.mp hks
    exact yields_primary_group hopen
      ((completes_isExpr h).yields hks (ends_of_peek hclose.peek_eq (by decide))) hclose
  | .var =>
    intro ts rest hk hends
    exact yields_primary_reference [] hk hends
  | @IsExpr.member _ (segment :: path) _ =>
    intro ts rest hks hends
    exact yields_primary_reference (segment :: path) hks hends
  | .call harguments =>
    intro ts rest hks _
    obtain ⟨mid₂, hks, hclose⟩ := Reads.append_iff.mp hks
    obtain ⟨mid, hname, hks⟩ := Reads.cons_iff.mp hks
    obtain ⟨mid₁, hopen, hks⟩ := Reads.cons_iff.mp hks
    exact yields_primary_call [] hname hopen (completes_areArguments harguments hks hclose)
  | @IsExpr.methodCall _ (segment :: path) _ _ _ harguments =>
    intro ts rest hks _
    obtain ⟨mid₂, hks, hclose⟩ := Reads.append_iff.mp hks
    obtain ⟨mid, hname, hks⟩ := Reads.append_iff.mp hks
    obtain ⟨mid₁, hopen, hks⟩ := Reads.cons_iff.mp hks
    exact yields_primary_call (segment :: path) hname hopen
      (completes_areArguments harguments hks hclose)

theorem completes_areArguments {ks : List Kind} {es : List Expr} (h : AreArguments ks es) :
    CompletesArguments ks es := by
  match h with
  | .none =>
    intro ts mid rest hks hclose
    cases hks
    exact yields_parseArguments_none hclose
  | .some he hmore =>
    intro ts mid rest h hclose
    obtain ⟨mid₁, hks, hls⟩ := Reads.append_iff.mp h
    have he' := (completes_isExpr he).yields hks (hmore.ends hls hclose)
    exact yields_parseArguments_some (Derived.starts ⟨_, hks, he⟩)
      (completes_areMoreArguments hmore he' hls hclose)

theorem completes_areMoreArguments {ks : List Kind} {es : List Expr} (h : AreMoreArguments ks es) :
    CompletesMore ks es := by
  match h with
  | .none =>
    intro ts mid mid' rest e he hks hclose
    cases hks
    exact yields_parseArgumentList_end he hclose
  | .some he hmore =>
    intro ts mid mid' rest e hfirst h hclose
    obtain ⟨mid₂, h, hls⟩ := Reads.append_iff.mp h
    obtain ⟨mid₁, hcomma, hks⟩ := Reads.cons_iff.mp h
    have he' := (completes_isExpr he).yields hks (hmore.ends hls hclose)
    exact yields_parseArgumentList_comma hfirst hcomma
      (completes_areMoreArguments hmore he' hls hclose)

end

/-- **Whatever derives an expression is parsed as it**, if nothing stands
behind it that takes it further. -/
theorem parseLevel_complete {level : Level} {ts rest : List Token} {e : Expr}
    (h : Derived (IsExpr level) ts e rest) (hends : level.Ends rest) :
    Yields (parseLevel level ts) e rest := by
  obtain ⟨ks, hks, he⟩ := h
  exact (completes_isExpr he).yields hks hends

theorem parseArguments_complete {ts rest : List Token} {es : List Expr}
    (h : Derived AreClosedArguments ts es rest) : Yields (parseArguments ts) es rest := by
  obtain ⟨_, hks, ls, rfl, hes⟩ := h
  obtain ⟨mid, hls, hclose⟩ := Reads.append_iff.mp hks
  exact completes_areArguments hes hls hclose

end ClassLang
