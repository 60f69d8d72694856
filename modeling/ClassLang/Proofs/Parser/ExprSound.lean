import ClassLang.Parse.Expr
import ClassLang.Proofs.Parser.Reads

/-!
# What is parsed as an expression derives it

Whatever a step of parsing an expression reads, the grammar derives the result
from just that. The proof follows the recursion of the parser: each function
needs the claim for those it calls, at fewer tokens or at a tighter level. In a
chain the expression so far comes with a derivation of its own, which every
operator extends to the right.
-/

namespace ClassLang

/-! ## Operators -/

/-- An operator of a chain builds what the grammar derives. -/
theorem isExpr_of_operator? {c : Chain} {k : Kind} {build : Expr → Expr → Expr}
    (h : c.operator? k = some build) {ks ls : List Kind} {l r : Expr}
    (hl : IsExpr (.chain c) ks l) (hr : IsExpr c.operand ls r) :
    IsExpr (.chain c) (ks ++ k :: ls) (build l r) := by
  unfold Chain.operator? at h
  split at h <;> cases h
  · exact @IsExpr.logic .or _ _ _ _ hl hr
  · exact @IsExpr.logic .and _ _ _ _ hl hr
  · exact @IsExpr.arithmetic .add _ _ _ _ _ rfl hl hr
  · exact @IsExpr.arithmetic .sub _ _ _ _ _ rfl hl hr
  · exact @IsExpr.arithmetic .mul _ _ _ _ _ rfl hl hr
  · exact @IsExpr.arithmetic .div _ _ _ _ _ rfl hl hr

theorem equalityOp?_eq_some {k : Kind} {op : BinaryOp} (h : equalityOp? k = some op) :
    k = op.kind ∧ op.level = .equality := by
  unfold equalityOp? at h
  split at h <;> cases h <;> exact ⟨rfl, rfl⟩

theorem relationOp?_eq_some {k : Kind} {op : RelationOp} (h : relationOp? k = some op) :
    k = op.kind := by
  unfold relationOp? at h
  split at h <;> cases h <;> rfl

theorem isExpr_of_truthValue? {k : Kind} {value : Bool} (h : truthValue? k = some value) :
    IsExpr .relation [k] (.boolean value) := by
  unfold truthValue? at h
  split at h <;> cases h
  · exact @IsExpr.truth true
  · exact @IsExpr.truth false

/-- A literal is what its token stands for. -/
theorem isExpr_of_literal? {k : Kind} {e : Expr} (h : literal? k = some e) :
    IsExpr .primary [k] e := by
  unfold literal? at h
  split at h <;> cases h
  · exact .integer
  · exact .decimal
  · exact .string

theorem isExpr_reference {head : String} {path : List String} :
    IsExpr .primary (.identifier head :: segmentKinds path) (reference head path) := by
  rcases path with _ | ⟨segment, path⟩
  · exact .var
  · exact .member (by rintro ⟨⟩)

/-! ## Comparisons -/

/-- What the tokens of a relation are without the exclamation mark in front. -/
def IsComparison (negated : Bool) (ks : List Kind) (e : Expr) : Prop :=
  IsExpr .relation ((if negated then [.mark .bang] else []) ++ ks) e

/-- A sum is a comparison without a sign. -/
theorem isComparison_sum {negated : Bool} {ks : List Kind} {e : Expr}
    (h : IsExpr (.chain .sum) ks e) : IsComparison negated ks (negateIf negated e) := by
  cases negated with
  | false => exact .sum h
  | true => exact .negation h

/-- Two sums with a sign between them are a comparison. -/
theorem isComparison_relation {negated : Bool} {ks ls : List Kind} {op : RelationOp} {l r : Expr}
    (hl : IsExpr (.chain .sum) ks l) (hr : IsExpr (.chain .sum) ls r) :
    IsComparison negated (ks ++ op.kind :: ls)
      (negateIf negated (.relation op negated l r)) := by
  cases negated with
  | false => exact .comparison hl hr
  | true => exact .negatedComparison hl hr

/-! ## The parser -/

/-- The tokens are arguments and the parenthesis behind them. -/
def AreClosedArguments (ks : List Kind) (arguments : List Expr) : Prop :=
  ∃ ls, ks = ls ++ [.mark .rightParen] ∧ AreArguments ls arguments

/-- The tokens are arguments, of which there is at least one, and the
parenthesis behind them. -/
def AreClosedMore (ks : List Kind) (arguments : List Expr) : Prop :=
  ∃ ls ms e rest, ks = ls ++ ms ++ [.mark .rightParen] ∧ arguments = e :: rest ∧
    IsExpr .top ls e ∧ AreMoreArguments ms rest

theorem AreClosedMore.areClosedArguments {ks : List Kind} {arguments : List Expr}
    (h : AreClosedMore ks arguments) : AreClosedArguments ks arguments := by
  obtain ⟨ls, ms, e, rest, rfl, rfl, he, hrest⟩ := h
  exact ⟨ls ++ ms, rfl, .some he hrest⟩

theorem isExpr_callOf {head : String} {path : List String} {ks : List Kind}
    {arguments : List Expr} (h : AreClosedArguments ks arguments) :
    IsExpr .primary (.identifier head :: segmentKinds path ++ .mark .leftParen :: ks)
      (callOf head path arguments) := by
  obtain ⟨ls, rfl, h⟩ := h
  rcases path with _ | ⟨segment, path⟩
  · exact .call h
  · have hcall := @IsExpr.methodCall head (segment :: path) _ _ (by rintro ⟨⟩) h
    rwa [List.append_assoc] at hcall

/-- An argument in front of others, with a comma between them. -/
theorem AreClosedMore.cons {ks ls : List Kind} {e : Expr} {arguments : List Expr}
    (he : IsExpr .top ks e) (h : AreClosedMore ls arguments) :
    AreClosedMore (ks ++ .mark .comma :: ls) (e :: arguments) := by
  obtain ⟨ms, ns, e', rest, rfl, rfl, he', hrest⟩ := h
  exact ⟨ks, .mark .comma :: ms ++ ns, e, e' :: rest, by simp, rfl, he, .some he' hrest⟩

mutual

/-- At every level an expression derives what is read. -/
theorem parseLevel_sound {e : Expr} {rest : List Token} (level : Level) (ts : List Token)
    (h : Yields (parseLevel level ts) e rest) : Derived (IsExpr level) ts e rest := by
  match level with
  | .chain c =>
    rw [parseLevel] at h
    obtain ⟨l, mid, hlt, hl, h⟩ := h.of_bind
    obtain ⟨v, _, _, hv, h⟩ := h.of_bind
    obtain ⟨rfl, rfl⟩ := h.of_ok
    obtain ⟨ks, hks, hl⟩ := parseLevel_sound c.operand ts hl
    obtain ⟨ls, hls, he⟩ := parseChain_sound c l mid hv (.operand hl)
    exact ⟨ks ++ ls, hks.trans hls, he⟩
  | .equality =>
    rw [parseLevel] at h
    obtain ⟨l, mid, hlt, hl, h⟩ := h.of_bind
    obtain ⟨ks, hks, hl⟩ := parseLevel_sound .relation ts hl
    dsimp only at h
    rcases accept?_cases equalityOp? rfl mid with
      ⟨hnone, -⟩ | ⟨k, op, mid', hlt', hsome, hop, hk⟩
    · rw [hnone] at h
      obtain ⟨rfl, rfl⟩ := h.of_ok
      exact ⟨ks, hks, .relation hl⟩
    · rw [hsome] at h
      obtain ⟨r, _, _, hr, h⟩ := h.of_bind
      obtain ⟨rfl, rfl⟩ := h.of_ok
      obtain ⟨ls, hls, hr⟩ := parseLevel_sound .relation mid' hr
      obtain ⟨rfl, hlevel⟩ := equalityOp?_eq_some hop
      exact ⟨_, hks.trans (hk.trans hls), .equality hlevel hl hr⟩
  | .relation => exact parseRelation_sound ts h
  | .primary => exact parsePrimary_sound ts h
termination_by 32 * ts.length + 2 * level.rank + 1
decreasing_by
  · have := c.rank_operand_lt; omega
  · omega
  · simp [Level.rank]
  · simp only [Level.rank]; omega
  · simp only [Level.rank]; omega
  · simp only [Level.rank]; omega

/-- What follows in a chain derives one with what is read already. -/
theorem parseChain_sound {e : Expr} {rest : List Token} (c : Chain) (left : Expr)
    (ts : List Token) (h : Yields (parseChain c left ts) e rest) {ks : List Kind}
    (hleft : IsExpr (.chain c) ks left) :
    ∃ ls, Reads ts ls rest ∧ IsExpr (.chain c) (ks ++ ls) e := by
  rw [parseChain] at h
  rcases accept?_cases c.operator? (by cases c <;> rfl) ts with
    ⟨hnone, -⟩ | ⟨k, build, mid, hlt, hsome, hbuild, hk⟩
  · rw [hnone] at h
    obtain ⟨rfl, rfl⟩ := h.of_ok
    exact ⟨[], .nil, by rwa [List.append_nil]⟩
  · rw [hsome] at h
    obtain ⟨r, mid', hlt', hr, h⟩ := h.of_bind
    obtain ⟨v, _, _, hv, h⟩ := h.of_bind
    obtain ⟨rfl, rfl⟩ := h.of_ok
    obtain ⟨ls, hls, hr⟩ := parseLevel_sound c.operand mid hr
    -- Grouping to the left: what is read so far is the left operand of what follows.
    obtain ⟨ms, hms, he⟩ :=
      parseChain_sound c (build left r) mid' hv (isExpr_of_operator? hbuild hleft hr)
    exact ⟨k :: ls ++ ms, (hk.trans hls).trans hms, by rwa [← List.append_assoc]⟩
termination_by 32 * ts.length
decreasing_by
  · have := c.operand.rank_lt; omega
  · omega

theorem parseRelation_sound {e : Expr} {rest : List Token} (ts : List Token)
    (h : Yields (parseLevel .relation ts) e rest) : Derived (IsExpr .relation) ts e rest := by
  rw [parseLevel] at h
  rcases accept?_cases truthValue? rfl ts with
    ⟨hnone, -⟩ | ⟨k, value, mid, hlt, hsome, hvalue, hk⟩
  · rw [hnone] at h
    rcases skip?_cases (k := .mark .bang) (by rintro ⟨⟩) ts with
      ⟨hnone, -⟩ | ⟨mid, hlt, hsome, hbang⟩
    · rw [hnone] at h
      exact parseComparison_sound false ts h
    · rw [hsome] at h
      obtain ⟨v, _, _, hv, h⟩ := h.of_bind
      obtain ⟨rfl, rfl⟩ := h.of_ok
      obtain ⟨ks, hks, hv⟩ := parseComparison_sound true mid hv
      exact ⟨_, hbang.trans hks, hv⟩
  · rw [hsome] at h
    obtain ⟨rfl, rfl⟩ := h.of_ok
    exact ⟨[k], hk, isExpr_of_truthValue? hvalue⟩
termination_by 32 * ts.length + 10
decreasing_by
  · omega
  · omega

/-- A comparison derives what is read. -/
theorem parseComparison_sound {e : Expr} {rest : List Token} (negated : Bool) (ts : List Token)
    (h : Yields (parseComparison negated ts) e rest) :
    Derived (IsComparison negated) ts e rest := by
  rw [parseComparison] at h
  obtain ⟨l, mid, hlt, hl, h⟩ := h.of_bind
  obtain ⟨ks, hks, hl⟩ := parseLevel_sound (.chain .sum) ts hl
  dsimp only at h
  rcases accept?_cases relationOp? rfl mid with
    ⟨hnone, -⟩ | ⟨k, op, mid', hlt', hsome, hop, hk⟩
  · rw [hnone] at h
    obtain ⟨rfl, rfl⟩ := h.of_ok
    exact ⟨ks, hks, isComparison_sum hl⟩
  · rw [hsome] at h
    obtain ⟨r, _, _, hr, h⟩ := h.of_bind
    obtain ⟨rfl, rfl⟩ := h.of_ok
    obtain ⟨ls, hls, hr⟩ := parseLevel_sound (.chain .sum) mid' hr
    obtain rfl := relationOp?_eq_some hop
    exact ⟨_, hks.trans (hk.trans hls), isComparison_relation hl hr⟩
termination_by 32 * ts.length + 8
decreasing_by
  · simp [Level.rank]
  · simp only [Level.rank]; omega

theorem parsePrimary_sound {e : Expr} {rest : List Token} (ts : List Token)
    (h : Yields (parseLevel .primary ts) e rest) : Derived (IsExpr .primary) ts e rest := by
  rw [parseLevel] at h
  rcases accept?_cases literal? rfl ts with
    ⟨hnone, -⟩ | ⟨k, value, mid, hlt, hsome, hvalue, hk⟩
  · rw [hnone] at h
    rcases skip?_cases (k := .mark .leftParen) (by rintro ⟨⟩) ts with
      ⟨hnone, -⟩ | ⟨mid, hlt, hsome, hopen⟩
    · rw [hnone] at h
      rcases accept?_cases Kind.name? rfl ts with
        ⟨hnone, -⟩ | ⟨k, head, mid, hlt, hsome, hhead, hk⟩
      · rw [hnone] at h
        exact absurd h Yields.not_wanted
      · rw [hsome] at h
        obtain ⟨path, mid', hlt', hpath, h⟩ := h.of_bind
        obtain rfl := Kind.name?_eq_some hhead
        have hname := hk.trans (parsePath_sound mid hpath)
        dsimp only at h
        rcases skip?_cases (k := .mark .leftParen) (by rintro ⟨⟩) mid' with
          ⟨hnone, -⟩ | ⟨mid'', hlt'', hsome, hopen⟩
        · rw [hnone] at h
          obtain ⟨rfl, rfl⟩ := h.of_ok
          exact ⟨_, hname, isExpr_reference⟩
        · rw [hsome] at h
          obtain ⟨arguments, _, _, harguments, h⟩ := h.of_bind
          obtain ⟨rfl, rfl⟩ := h.of_ok
          obtain ⟨ks, hks, harguments⟩ := parseArguments_sound mid'' harguments
          exact ⟨_, hname.trans (hopen.trans hks), isExpr_callOf harguments⟩
    · rw [hsome] at h
      obtain ⟨v, mid', hlt', hv, h⟩ := h.of_bind
      obtain ⟨_, _, _, hclose, h⟩ := h.of_bind
      obtain ⟨rfl, rfl⟩ := h.of_ok
      obtain ⟨ks, hks, hv⟩ := parseLevel_sound .top mid hv
      have hclose := reads_of_expect (by rintro ⟨⟩) hclose
      exact ⟨_, (hopen.trans hks).trans hclose, .group hv⟩
  · rw [hsome] at h
    obtain ⟨rfl, rfl⟩ := h.of_ok
    exact ⟨[k], hk, isExpr_of_literal? hvalue⟩
termination_by 32 * ts.length + 2
decreasing_by
  · omega
  · simp only [Level.rank, Level.top]; omega

/-- Arguments derive what is read, their closing parenthesis included. -/
theorem parseArguments_sound {es : List Expr} {rest : List Token} (ts : List Token)
    (h : Yields (parseArguments ts) es rest) : Derived AreClosedArguments ts es rest := by
  rw [parseArguments] at h
  rcases skip?_cases (k := .mark .rightParen) (by rintro ⟨⟩) ts with
    ⟨hnone, -⟩ | ⟨mid, hlt, hsome, hclose⟩
  · rw [hnone] at h
    obtain ⟨ks, hks, hes⟩ := parseArgumentList_sound ts h
    exact ⟨ks, hks, hes.areClosedArguments⟩
  · rw [hsome] at h
    obtain ⟨rfl, rfl⟩ := h.of_ok
    exact ⟨_, hclose, [], rfl, .none⟩
termination_by 32 * ts.length + 22
decreasing_by
  · omega

theorem parseArgumentList_sound {es : List Expr} {rest : List Token} (ts : List Token)
    (h : Yields (parseArgumentList ts) es rest) : Derived AreClosedMore ts es rest := by
  rw [parseArgumentList] at h
  obtain ⟨e, mid, hlt, he, h⟩ := h.of_bind
  obtain ⟨ks, hks, he⟩ := parseLevel_sound .top ts he
  dsimp only at h
  rcases skip?_cases (k := .mark .comma) (by rintro ⟨⟩) mid with
    ⟨hnone, -⟩ | ⟨mid', hlt', hsome, hcomma⟩
  · rw [hnone] at h
    obtain ⟨_, _, _, hclose, h⟩ := h.of_bind
    obtain ⟨rfl, rfl⟩ := h.of_ok
    have hclose := reads_of_expect (by rintro ⟨⟩) hclose
    exact ⟨_, hks.trans hclose, ks, [], e, [], by simp, rfl, he, .none⟩
  · rw [hsome] at h
    obtain ⟨more, _, _, hmore, h⟩ := h.of_bind
    obtain ⟨rfl, rfl⟩ := h.of_ok
    obtain ⟨ls, hls, hmore⟩ := parseArgumentList_sound mid' hmore
    exact ⟨_, hks.trans (hcomma.trans hls), hmore.cons he⟩
termination_by 32 * ts.length + 20
decreasing_by
  · simp [Level.rank, Level.top]
  · omega

end

end ClassLang
