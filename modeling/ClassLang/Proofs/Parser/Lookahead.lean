import ClassLang.Proofs.Parser.Reader

/-!
# How far the parser looks

No step of parsing looks at more than two tokens at once: a question is about
the next one, and only the type at the head of a declaration takes the token
behind it into account. So what a step does depends on the tokens it takes and
on the two behind them. If these are kept and all others replaced, it does the
same again.

`Local p ts` says this of one step from one list of tokens; it is a claim about
what the step does there, be it a result or an error, and so it can follow the
recursion of the parser.
-/

namespace ClassLang

/-- The first two tokens are the same, or there are none. -/
def Near (ts ts' : List Token) : Prop := ts.take 2 = ts'.take 2

namespace Near

variable {ts ts' : List Token}

theorem take_one_eq (h : Near ts ts') : ts.take 1 = ts'.take 1 := by
  have hone := congrArg (List.take 1) h
  rwa [List.take_take, List.take_take] at hone

theorem cons (t : Token) (h : Near ts ts') : Near (t :: ts) (t :: ts') :=
  congrArg (t :: ·) h.take_one_eq

theorem append (pre : List Token) (h : Near ts ts') : Near (pre ++ ts) (pre ++ ts') := by
  induction pre with
  | nil => exact h
  | cons t pre ih => exact ih.cons t

/-- Lists that are near to each other have the same next token. -/
theorem peek_eq (h : Near ts ts') : peek ts = peek ts' := by
  have hone := h.take_one_eq
  rcases ts with _ | ⟨t, ts⟩ <;> rcases ts' with _ | ⟨t', ts'⟩
  · rfl
  · cases hone
  · cases hone
  · exact (List.cons.inj hone).1

theorem cases (h : Near ts ts') :
    (ts = [] ∧ ts' = []) ∨ ∃ t r r', ts = t :: r ∧ ts' = t :: r' ∧ peek r = peek r' := by
  rcases ts with _ | ⟨t, r⟩ <;> rcases ts' with _ | ⟨t', r'⟩
  · exact .inl ⟨rfl, rfl⟩
  · cases h
  · cases h
  · obtain ⟨rfl, hone⟩ := List.cons.inj h
    refine .inr ⟨t, r, r', rfl, rfl, ?_⟩
    rcases r with _ | ⟨u, r⟩ <;> rcases r' with _ | ⟨u', r'⟩ <;> cases hone <;> rfl

end Near

section

variable {α β : Type}

/-! ## Questions -/

/-- A question that is about the two tokens in front and takes the first of
them if it takes any. -/
structure Looks (look : (ts : List Token) → Option (Parsed ts.length α)) : Prop where
  /-- nothing is taken from lists whose first tokens are the same -/
  none {ts ts' : List Token} : look ts = none → Near ts ts' → look ts' = none
  /-- the same is taken from lists whose first tokens are the same -/
  some {ts mid : List Token} {a : α} {h : mid.length < ts.length} :
    look ts = some ⟨a, mid, h⟩ → ∃ t, ts = t :: mid ∧
      ∀ mid', Near mid mid' → ∃ h', look (t :: mid') = some ⟨a, mid', h'⟩

theorem looks_of_cons {look : (ts : List Token) → Option (Parsed ts.length α)}
    (answer : Token → Token → Option α) (hnil : look [] = none)
    (hcons : ∀ t rest, look (t :: rest) = (answer t (peek rest)).map fun a => .here a rest) :
    Looks look where
  none {ts ts'} h hnear := by
    rcases hnear.cases with ⟨rfl, rfl⟩ | ⟨t, rest, rest', rfl, rfl, hpeek⟩
    · exact hnil
    · rw [hcons, Option.map_eq_none_iff] at h ⊢
      rwa [← hpeek]
  some {ts mid a hlt} h := by
    rcases ts with _ | ⟨t, rest⟩
    · rw [hnil] at h
      cases h
    · rw [hcons] at h
      obtain ⟨b, hb, h⟩ := Option.map_eq_some_iff.mp h
      cases h
      refine ⟨t, rfl, fun mid' hnear => ⟨Nat.lt_succ_self _, ?_⟩⟩
      rw [hcons, ← hnear.peek_eq, hb]
      rfl

theorem looks_accept? (ask? : Kind → Option α) : Looks (accept? ask?) :=
  looks_of_cons (fun t _ => ask? t.kind) rfl fun _ _ => rfl

theorem looks_skip? (k : Kind) : Looks (skip? k) := looks_accept? _

/-- Which type a token is in front of another. -/
def typeBefore? (allowVoid : Bool) (t next : Token) : Option Ty :=
  match t.kind.name? with
  | some name => if next.kind.isIdentifier then some (.cls name) else none
  | none => Ty.builtIn? allowVoid t.kind

theorem looks_leadingType? (allowVoid : Bool) : Looks (leadingType? allowVoid) := by
  refine looks_of_cons (typeBefore? allowVoid) rfl fun t rest => ?_
  rw [leadingType?, typeBefore?, accept?]
  rcases t.kind.name? with _ | name
  · rfl
  · change (if (peek rest).kind.isIdentifier = true then _ else _) = _
    split
    · rfl
    · rfl

/-! ## Steps -/

/-- What a step does with a list of tokens depends on those it takes and on the
two behind them: it does the same if all others are replaced. -/
structure Local (p : Reader α) (ts : List Token) : Prop where
  /-- a result -/
  ok {a : α} {rest : List Token} : p ts = .ok (a, rest) → ∃ taken, ts = taken ++ rest ∧
    ∀ rest', Near rest rest' → p (taken ++ rest') = .ok (a, rest')
  /-- an error -/
  error {e : ParseError} : p ts = .error e → ∃ taken, ts = taken ++ e.unread ∧
    ∀ unread', Near e.unread unread' → p (taken ++ unread') = .error { e with unread := unread' }

namespace Local

variable {ts : List Token}

theorem pure {a : α} : Local (pure a) ts where
  ok := by
    rintro a rest ⟨⟩
    exact ⟨[], rfl, fun _ _ => rfl⟩
  error := by rintro e ⟨⟩

theorem fail {problem : Problem} : Local (fail problem : Reader α) ts where
  ok := by rintro a rest ⟨⟩
  error := by
    rintro e ⟨⟩
    exact ⟨[], rfl, fun _ _ => rfl⟩

/-- Steps in sequence are local if each of them is. -/
theorem bind {p : Reader α} {f : α → Reader β} (hp : Local p ts)
    (hf : ∀ a mid, p ts = .ok (a, mid) → Local (f a) mid) : Local (p >>= f) ts := by
  have hbind (ts : List Token) : (p >>= f) ts = (p ts).bind fun r => f r.1 r.2 := rfl
  rcases hts : p ts with e | ⟨a, mid⟩
  · obtain ⟨taken, rfl, hagain⟩ := hp.error hts
    constructor
    · intro b rest h
      rw [hbind, hts] at h
      cases h
    · intro e' h
      rw [hbind, hts] at h
      cases h
      exact ⟨taken, rfl, fun unread' hnear => by rw [hbind, hagain unread' hnear]; rfl⟩
  · obtain ⟨taken, rfl, hagain⟩ := hp.ok hts
    have hsame {rest : List Token} (more : List Token) {rest' : List Token}
        (hmid : mid = more ++ rest) (hnear : Near rest rest') :
        (p >>= f) (taken ++ more ++ rest') = f a (more ++ rest') := by
      rw [List.append_assoc, hbind, hagain _ (hmid ▸ hnear.append more)]
      rfl
    constructor
    · intro b rest h
      rw [hbind, hts] at h
      obtain ⟨more, hmid, hmore⟩ := (hf a mid hts).ok h
      refine ⟨taken ++ more, by rw [hmid, List.append_assoc], fun rest' hnear => ?_⟩
      rw [hsame more hmid hnear, hmore rest' hnear]
    · intro e h
      rw [hbind, hts] at h
      obtain ⟨more, hmid, hmore⟩ := (hf a mid hts).error h
      refine ⟨taken ++ more, by rw [hmid, List.append_assoc], fun unread' hnear => ?_⟩
      rw [hsame more hmid hnear, hmore unread' hnear]

/-- A step that is another one wherever the tokens begin like these. -/
theorem of_near {p q : Reader α} (hq : Local q ts) (h : ∀ ts', Near ts ts' → p ts' = q ts') :
    Local p ts := by
  have hts := h ts rfl
  constructor
  · intro a rest hp
    obtain ⟨taken, rfl, hagain⟩ := hq.ok (hts ▸ hp)
    refine ⟨taken, rfl, fun rest' hnear => ?_⟩
    rw [h _ (hnear.append taken), hagain rest' hnear]
  · intro e hp
    obtain ⟨taken, rfl, hagain⟩ := hq.error (hts ▸ hp)
    refine ⟨taken, rfl, fun unread' hnear => ?_⟩
    rw [h _ (hnear.append taken), hagain unread' hnear]

/-- A step that takes a token and then is another one. -/
theorem of_cons {p q : Reader α} {t : Token} {mid : List Token} (hq : Local q mid)
    (h : ∀ mid', Near mid mid' → p (t :: mid') = q mid') : Local p (t :: mid) := by
  have hmid := h mid rfl
  constructor
  · intro a rest hp
    obtain ⟨taken, rfl, hagain⟩ := hq.ok (hmid ▸ hp)
    refine ⟨t :: taken, rfl, fun rest' hnear => ?_⟩
    rw [List.cons_append, h _ (hnear.append taken), hagain rest' hnear]
  · intro e hp
    obtain ⟨taken, rfl, hagain⟩ := hq.error (hmid ▸ hp)
    refine ⟨t :: taken, rfl, fun unread' hnear => ?_⟩
    rw [List.cons_append, h _ (hnear.append taken), hagain unread' hnear]

/-- Asking for a token is local if what follows is. -/
theorem ask {look : (ts : List Token) → Option (Parsed ts.length α)} {none : Reader β}
    {some : α → Reader β} (hlook : Looks look) (hnone : Local none ts)
    (hsome : ∀ a mid, mid.length < ts.length → Local (some a) mid) :
    Local (ask look none some) ts := by
  rcases hts : look ts with _ | ⟨a, mid, hlt⟩
  · refine of_near hnone fun ts' hnear => ?_
    rw [ClassLang.ask, hlook.none hts hnear]
  · obtain ⟨t, rfl, hagain⟩ := hlook.some hts
    refine of_cons (hsome a mid hlt) fun mid' hnear => ?_
    obtain ⟨_, hmid'⟩ := hagain mid' hnear
    rw [ClassLang.ask, hmid']

theorem next {test : Kind → Prop} [DecidablePred test] {yes no : Reader α}
    (hyes : Local yes ts) (hno : Local no ts) : Local (ifNext test yes no) ts := by
  by_cases hk : test (peek ts).kind
  · refine of_near hyes fun ts' hnear => ?_
    rw [ifNext, ← hnear.peek_eq, if_pos hk]
  · refine of_near hno fun ts' hnear => ?_
    rw [ifNext, ← hnear.peek_eq, if_neg hk]

/-- Behind a step with a bound, the tokens left respect the bound. -/
theorem step {n : List Token → Nat} {parse : (ts : List Token) → Parse (Parsed (n ts) α)}
    {f : α → Reader β} (hparse : Local (reader parse) ts)
    (hf : ∀ a mid, mid.length < n ts → Local (f a) mid) : Local (reader parse >>= f) ts :=
  hparse.bind fun a mid h => hf a mid (reader_eq_ok_iff.mp h).shorter

end Local

theorem shorter_of_reader? {parse? : (ts : List Token) → Parse (Option (Parsed ts.length α))}
    {ts mid : List Token} {a : α} (h : reader? parse? ts = .ok (some a, mid)) :
    mid.length < ts.length := by
  rw [reader?] at h
  rcases hparse : parse? ts with e | _ | ⟨b, rest, hlt⟩ <;> rw [hparse] at h <;> cases h
  exact hlt

end

/-! ## Single tokens and paths -/

section

variable {ts : List Token}

theorem expect_local {k : Kind} {what : Expectation} : Local (reader (expect k what)) ts := by
  rw [reader_expect]
  exact .ask (looks_skip? k) .fail fun _ _ _ => .pure

theorem parseName_local {what : Expectation} : Local (reader (parseName what)) ts := by
  rw [reader_parseName]
  exact .ask (looks_accept? _) .fail fun _ _ _ => .pure

end

theorem parsePath_local (ts : List Token) : Local (reader parsePath) ts := by
  rw [reader_parsePath]
  refine .ask (looks_skip? _) .pure fun _ mid _ => ?_
  exact parseName_local.step fun _ mid' _ => (parsePath_local mid').step fun _ _ _ => .pure
termination_by ts.length

/-! ## Expressions -/

mutual

/-- Expressions are parsed locally, at every level. -/
theorem parseLevel_local (level : Level) (ts : List Token) :
    Local (reader (parseLevel level)) ts := by
  match level with
  | .chain c =>
    rw [reader_chain]
    exact (parseLevel_local c.operand ts).step fun l mid _ => parseChain_local c l mid
  | .equality =>
    rw [reader_equality]
    refine (parseLevel_local .relation ts).step fun _ mid _ => ?_
    refine .ask (looks_accept? _) .pure fun _ mid' _ => ?_
    exact (parseLevel_local .relation mid').step fun _ _ _ => .pure
  | .relation => exact parseRelation_local ts
  | .primary => exact parsePrimary_local ts
termination_by 32 * ts.length + 2 * level.rank + 1
decreasing_by
  · have := c.rank_operand_lt; omega
  · omega
  · simp [Level.rank]
  · simp only [Level.rank]; omega
  · simp only [Level.rank]; omega
  · simp only [Level.rank]; omega

theorem parseChain_local (c : Chain) (left : Expr) (ts : List Token) :
    Local (reader (parseChain c left)) ts := by
  rw [reader_parseChain]
  refine .ask (looks_accept? _) .pure fun build mid _ => ?_
  exact (parseLevel_local c.operand mid).step fun right mid' _ =>
    parseChain_local c (build left right) mid'
termination_by 32 * ts.length
decreasing_by
  · have := c.operand.rank_lt; omega
  · omega

theorem parseRelation_local (ts : List Token) : Local (reader (parseLevel .relation)) ts := by
  rw [reader_relation]
  refine .ask (looks_accept? _) ?_ fun _ _ _ => .pure
  exact .ask (looks_skip? _) (parseComparison_local false ts) fun _ mid _ =>
    parseComparison_local true mid
termination_by 32 * ts.length + 10
decreasing_by
  · omega
  · omega

theorem parseComparison_local (negated : Bool) (ts : List Token) :
    Local (reader (parseComparison negated)) ts := by
  rw [reader_parseComparison]
  refine (parseLevel_local (.chain .sum) ts).step fun _ mid _ => ?_
  refine .ask (looks_accept? _) .pure fun _ mid' _ => ?_
  exact (parseLevel_local (.chain .sum) mid').step fun _ _ _ => .pure
termination_by 32 * ts.length + 8
decreasing_by
  · simp [Level.rank]
  · simp only [Level.rank]; omega

theorem parsePrimary_local (ts : List Token) : Local (reader (parseLevel .primary)) ts := by
  rw [reader_primary]
  refine .ask (looks_accept? _) (.ask (looks_skip? _) ?_ fun _ mid _ => ?_) fun _ _ _ => .pure
  · refine .ask (looks_accept? _) .fail fun _ mid _ => ?_
    refine (parsePath_local mid).step fun _ mid' _ => ?_
    refine .ask (looks_skip? _) .pure fun _ mid'' _ => ?_
    exact (parseArguments_local mid'').step fun _ _ _ => .pure
  · exact (parseLevel_local .top mid).step fun _ _ _ => expect_local.step fun _ _ _ => .pure
termination_by 32 * ts.length + 2
decreasing_by
  · omega
  · simp only [Level.rank, Level.top]; omega

theorem parseArguments_local (ts : List Token) : Local (reader parseArguments) ts := by
  rw [reader_parseArguments]
  exact .ask (looks_skip? _) (parseArgumentList_local ts) fun _ _ _ => .pure
termination_by 32 * ts.length + 22
decreasing_by
  · omega

theorem parseArgumentList_local (ts : List Token) : Local (reader parseArgumentList) ts := by
  rw [reader_parseArgumentList]
  refine (parseLevel_local .top ts).step fun _ mid _ => ?_
  refine .ask (looks_skip? _) (expect_local.step fun _ _ _ => .pure) fun _ mid' _ => ?_
  exact (parseArgumentList_local mid').step fun _ _ _ => .pure
termination_by 32 * ts.length + 20
decreasing_by
  · simp [Level.rank, Level.top]
  · omega

end

/-! ## Statements -/

section

variable (ts : List Token)

theorem parseExpr_local : Local (reader parseExpr) ts := parseLevel_local .top ts

theorem parseInitial_local : Local (reader parseInitial) ts := by
  rw [reader_parseInitial]
  exact .ask (looks_skip? _) .pure fun _ mid _ => (parseExpr_local mid).step fun _ _ _ => .pure

theorem parseDeclaration_local (type : Ty) : Local (reader (parseDeclaration type)) ts := by
  rw [reader_parseDeclaration]
  exact parseName_local.step fun _ mid _ => (parseInitial_local mid).step fun _ _ _ =>
    expect_local.step fun _ _ _ => .pure

theorem parseEffect_local (head : String) : Local (reader (parseEffect head)) ts := by
  rw [reader_parseEffect]
  refine (parsePath_local ts).step fun _ mid _ => .ask (looks_skip? _) ?_ fun _ mid' _ => ?_
  · refine .ask (looks_skip? _) .fail fun _ mid' _ => ?_
    exact (parseExpr_local mid').step fun _ _ _ => expect_local.step fun _ _ _ => .pure
  · exact (parseArguments_local mid').step fun _ _ _ => expect_local.step fun _ _ _ => .pure

theorem parseCondition_local (opening closing : Expectation) :
    Local (reader (parseCondition opening closing)) ts := by
  rw [reader_parseCondition]
  exact expect_local.step fun _ mid _ => (parseExpr_local mid).step fun _ _ _ =>
    expect_local.step fun _ _ _ => .pure

end

mutual

theorem parseBlock_local (ts : List Token) : Local (reader parseBlock) ts := by
  rw [reader_parseBlock]
  exact expect_local.step fun _ mid _ => parseBody_local mid
termination_by 4 * ts.length

theorem parseBody_local (ts : List Token) : Local (reader parseBody) ts := by
  rw [reader_parseBody]
  exact (parseStatements_local ts).step fun _ _ _ => expect_local.step fun _ _ _ => .pure
termination_by 4 * ts.length + 2

theorem parseStatements_local (ts : List Token) : Local (reader parseStatements) ts := by
  rw [reader_parseStatements]
  refine (parseStatement?_local ts).bind fun found mid h => ?_
  rcases found with _ | first
  · exact .pure
  · have hlt := shorter_of_reader? h
    exact (parseStatements_local mid).step fun _ _ _ => .pure
termination_by 4 * ts.length + 1

/-- Statements are parsed locally. -/
theorem parseStatement?_local (ts : List Token) : Local (reader? parseStatement?) ts := by
  rw [reader?_parseStatement?]
  refine .ask (looks_accept? _) (.ask (looks_leadingType? _) ?_ fun type mid _ => ?_)
    fun opening mid _ => readOpened_local opening mid
  · refine .ask (looks_accept? _) .pure fun head mid _ => ?_
    exact (parseEffect_local mid head).step fun _ _ _ => .pure
  · exact (parseDeclaration_local mid type).step fun _ _ _ => .pure
termination_by 4 * ts.length

theorem readOpened_local (opening : Opening) (ts : List Token) :
    Local (readOpened opening) ts := by
  match opening with
  | .conditional =>
    refine (parseCondition_local ts _ _).step fun _ mid _ => ?_
    refine (parseBlock_local mid).step fun _ mid' _ => ?_
    refine .ask (looks_skip? _) .pure fun _ mid'' _ => ?_
    exact (parseBlock_local mid'').step fun _ _ _ => .pure
  | .loop =>
    refine (parseCondition_local ts _ _).step fun _ mid _ => ?_
    exact (parseBlock_local mid).step fun _ _ _ => .pure
  | .result =>
    exact (parseExpr_local ts).step fun _ _ _ => expect_local.step fun _ _ _ => .pure
  | .block => exact (parseBody_local ts).step fun _ _ _ => .pure
termination_by 4 * ts.length + 3

end

/-! ## Programs -/

/-- A name that must be new is refused where it stands. -/
theorem parseNew_local {what : Expectation} {definition : Definition} {taken : String → Bool}
    (ts : List Token) : Local (reader (parseNew what definition taken)) ts := by
  rw [reader_parseNew]
  exact .next .fail parseName_local

section

variable (ts : List Token)

theorem parseParameter_local : Local (reader parseParameter) ts := by
  rw [reader_parseParameter]
  refine .ask (looks_accept? _) .fail fun _ mid _ => .ask (looks_skip? _) ?_ fun _ mid' _ => ?_
  · exact parseName_local.step fun _ _ _ => .pure
  · exact parseName_local.step fun _ _ _ => .pure

theorem parseParameterList_local (ts : List Token) : Local (reader parseParameterList) ts := by
  rw [reader_parseParameterList]
  refine (parseParameter_local ts).step fun _ mid _ => .ask (looks_skip? _) .pure fun _ mid' _ => ?_
  exact (parseParameterList_local mid').step fun _ _ _ => .pure
termination_by ts.length

theorem parseParameters_local : Local (reader parseParameters) ts := by
  rw [reader_parseParameters]
  exact .next .pure (parseParameterList_local ts)

theorem parseRoutine_local (returns : Ty) (name : String) :
    Local (reader (parseRoutine returns name)) ts := by
  rw [reader_parseRoutine]
  exact expect_local.step fun _ mid₁ _ => (parseParameters_local mid₁).step fun _ _ _ =>
    expect_local.step fun _ mid₃ _ => (parseBlock_local mid₃).step fun _ _ _ => .pure

end

theorem parseMembers_local (taken : List String) (ts : List Token) :
    Local (reader (parseMembers taken)) ts := by
  rw [reader_parseMembers]
  refine .ask (looks_leadingType? _) .pure fun type mid₁ _ => ?_
  refine (parseNew_local mid₁).step fun name mid₂ _ => .next ?_ ?_
  · refine (parseRoutine_local mid₂ type name).step fun _ mid₃ _ => ?_
    exact (parseMembers_local _ mid₃).step fun _ _ _ => .pure
  · refine (parseInitial_local mid₂).step fun _ _ _ => expect_local.step fun _ mid₄ _ => ?_
    exact (parseMembers_local _ mid₄).step fun _ _ _ => .pure
termination_by ts.length

theorem parseClass_local (name : String) (ts : List Token) :
    Local (reader (parseClass name)) ts := by
  rw [reader_parseClass]
  exact expect_local.step fun _ mid _ => (parseMembers_local _ mid).step fun _ _ _ =>
    expect_local.step fun _ _ _ => .pure

/-- Definitions are parsed locally. -/
theorem parseDefinitions_local (p : Program) (ts : List Token) :
    Local (reader (parseDefinitions p)) ts := by
  rw [reader_parseDefinitions]
  refine .ask (looks_leadingType? _) (.ask (looks_skip? _) .pure fun _ mid₁ _ => ?_)
    fun returns mid₁ _ => ?_
  · refine (parseNew_local mid₁).step fun name mid₂ _ => ?_
    exact (parseClass_local name mid₂).step fun _ mid₃ _ => parseDefinitions_local _ mid₃
  · refine (parseNew_local mid₁).step fun name mid₂ _ => ?_
    exact (parseRoutine_local mid₂ returns name).step fun _ mid₃ _ => parseDefinitions_local _ mid₃
termination_by ts.length

theorem readProgram_local (ts : List Token) : Local readProgram ts :=
  expect_local.step fun _ mid _ => (parseDefinitions_local {} mid).step fun _ _ _ =>
    expect_local.step fun _ _ _ => .next .pure .fail

end ClassLang
