import ClassLang.Proofs.Parser.ExprViable

/-!
# Statements that are begun can be ended

What is still to come of a statement is at most an expression, an empty block
and a semicolon. As the parser reads some statements in two parts, the second
part has a language of its own: what stands behind the type of a declaration,
behind the first name of an assignment or a call, behind the token that opens
a statement.
-/

namespace ClassLang

section

variable (ts : List Token)

theorem parseExpr_adheres : Adheres (IsExpr .top) parseExpr ts :=
  ⟨parseExpr_sound, parseLevel_viable .top ts⟩

theorem parseArguments_adheres : Adheres AreClosedArguments parseArguments ts :=
  ⟨parseArguments_sound ts, parseArguments_viable ts⟩

theorem parseInitial_adheres : Adheres AreInitial parseInitial ts where
  sound := parseInitial_sound
  viable := by
    rw [reader_parseInitial]
    refine .skip (by rintro ⟨⟩) .pure fun mid _ => ?_
    exact .bind (parseExpr_adheres mid) (fun ks e he => ⟨[], some e, by simp, ks, by simp, he⟩)
      fun _ _ _ _ _ => .pure

theorem areInitial_none : AreInitial [] none := rfl

/-- What stands behind the type of a declaration. -/
def IsTypedDeclaration (type : Ty) (ks : List Kind) (s : Stmt) : Prop :=
  ∃ d, s = .declare d ∧ d.type = type ∧ IsDeclaration (type.kind :: ks) d

theorem AreInitial.isTypedDeclaration {ks : List Kind} {initial : Option Expr}
    (h : AreInitial ks initial) (type : Ty) (name : String) :
    IsTypedDeclaration type (.identifier name :: ks ++ [.mark .semicolon])
      (.declare ⟨type, name, initial⟩) :=
  ⟨_, rfl, rfl, h.isDeclaration type name⟩

/-- Behind its type a declaration is read in full, or begun. -/
theorem parseDeclaration_adheres (type : Ty) :
    Adheres (IsTypedDeclaration type) (parseDeclaration type) ts where
  sound h := by
    obtain ⟨ks, d, hks, rfl, htype, hd⟩ := parseDeclaration_sound h
    exact ⟨ks, hks, d, rfl, htype, hd⟩
  viable := by
    rw [reader_parseDeclaration]
    refine .bind parseName_adheres ?_ ?_
    · rintro _ name rfl
      exact ⟨[.mark .semicolon], _, by simp,
        areInitial_none.isTypedDeclaration type name⟩
    · rintro _ name mid _ rfl
      refine .bind (parseInitial_adheres mid) ?_ ?_
      · intro ks initial hinitial
        exact ⟨[.mark .semicolon], _, by simp, hinitial.isTypedDeclaration type name⟩
      · intro ks initial mid' _ hinitial
        refine .bind (expect_adheres (by rintro ⟨⟩)) ?_ fun _ _ _ _ _ => .pure
        rintro _ _ rfl
        exact ⟨[], _, by simp, hinitial.isTypedDeclaration type name⟩

/-- What stands behind the first name of an assignment or a call. -/
def IsEffect (head : String) (ks : List Kind) (s : Stmt) : Prop :=
  IsStmt (.identifier head :: ks) s

theorem isEffect_assign {head : String} {path : List String} {ks : List Kind} {e : Expr}
    (h : IsExpr .top ks e) :
    IsEffect head (segmentKinds path ++ (.mark .equal :: (ks ++ [.mark .semicolon])))
      (.assign (targetOf head path) e) := by
  have hassign := IsStmt.assign (isTarget_targetOf head path) h
  simpa [IsEffect] using hassign

theorem isEffect_call {head : String} {path : List String} {ks : List Kind}
    {arguments : List Expr} (h : AreClosedArguments ks arguments) :
    IsEffect head (segmentKinds path ++ (.mark .leftParen :: (ks ++ [.mark .semicolon])))
      (.call (.call (targetOf head path) arguments)) := by
  obtain ⟨ls, rfl, h⟩ := h
  have hcall := IsStmt.call (isTarget_targetOf head path) h
  simpa [IsEffect] using hcall

/-- Behind its first name an assignment or a call is read in full, or begun. -/
theorem parseEffect_adheres (head : String) :
    Adheres (IsEffect head) (parseEffect head) ts where
  sound := parseEffect_sound
  viable := by
    have hassign (path : List String) :
        CanEnd (after (segmentKinds path) (IsEffect head)) :=
      ⟨_, _, by simp, isEffect_assign (isExpr_name .top "x")⟩
    rw [reader_parseEffect]
    refine .bind (parsePath_adheres ts) (by rintro _ path rfl; exact hassign path) ?_
    rintro _ path mid _ rfl
    refine .skip (by rintro ⟨⟩) (.skip (by rintro ⟨⟩) (.fail (hassign path)) fun mid' _ => ?_)
      fun mid' _ => ?_
    · refine .bind (parseExpr_adheres mid') ?_ ?_
      · exact fun ks e he => ⟨[.mark .semicolon], _, by simp, isEffect_assign he⟩
      · intro ks e mid'' _ he
        refine .bind (expect_adheres (by rintro ⟨⟩)) ?_ fun _ _ _ _ _ => .pure
        rintro _ _ rfl
        exact ⟨[], _, by simp, isEffect_assign he⟩
    · refine .bind (parseArguments_adheres mid') ?_ ?_
      · exact fun ks arguments h => ⟨[.mark .semicolon], _, by simp, isEffect_call h⟩
      · intro ks arguments mid'' _ h
        refine .bind (expect_adheres (by rintro ⟨⟩)) ?_ fun _ _ _ _ _ => .pure
        rintro _ _ rfl
        exact ⟨[], _, by simp, isEffect_call h⟩

theorem parseCondition_adheres (opening closing : Expectation) :
    Adheres IsCondition (parseCondition opening closing) ts where
  sound := parseCondition_sound
  viable := by
    rw [reader_parseCondition]
    refine .bind (expect_adheres (by rintro ⟨⟩)) ?_ ?_
    · rintro _ _ rfl
      exact ⟨[.identifier "x", .mark .rightParen], _, by simp, .mk (isExpr_name .top "x")⟩
    · rintro _ _ mid _ rfl
      refine .bind (parseExpr_adheres mid) ?_ ?_
      · exact fun ks e he => ⟨[.mark .rightParen], e, by simp, .mk he⟩
      · intro ks e mid' _ he
        refine .bind (expect_adheres (by rintro ⟨⟩)) ?_ fun _ _ _ _ _ => .pure
        rintro _ _ rfl
        exact ⟨[], e, by simp, .mk he⟩

end

/-- There is a block behind any opening brace. -/
theorem isBlock_nil : IsBlock [.mark .leftBrace, .mark .rightBrace] [] := .mk .nil

/-- What stands behind the token that opens a statement. -/
def IsOpened (opening : Opening) (ks : List Kind) (s : Stmt) : Prop :=
  IsStmt (opening.kind :: ks) s

section

variable {ks ls ms : List Kind} {e : Expr} {body otherwise : List Stmt}

theorem isOpened_ifThen (he : IsCondition ks e) (hbody : IsBlock ls body) :
    IsOpened .conditional (ks ++ ls) (.ifThen e body) :=
  .ifThen he hbody

theorem isOpened_ifElse (he : IsCondition ks e) (hbody : IsBlock ls body)
    (hotherwise : IsBlock ms otherwise) :
    IsOpened .conditional (ks ++ ls ++ .keyword .elseWord :: ms) (.ifElse e body otherwise) :=
  .ifElse he hbody hotherwise

theorem isOpened_loop (he : IsCondition ks e) (hbody : IsBlock ls body) :
    IsOpened .loop (ks ++ ls) (.loop e body) :=
  .loop he hbody

theorem isOpened_ret (he : IsExpr .top ks e) :
    IsOpened .result (ks ++ [.mark .semicolon]) (.ret e) :=
  .ret he

end

mutual

theorem parseBlock_viable (ts : List Token) : Viable IsBlock (reader parseBlock) ts := by
  rw [reader_parseBlock]
  refine .bind (expect_adheres (by rintro ⟨⟩)) ?_ ?_
  · rintro _ _ rfl
    exact ⟨[.mark .rightBrace], [], by simp, isBlock_nil⟩
  · rintro _ _ mid _ rfl
    exact parseBody_viable mid
termination_by 4 * ts.length

theorem parseBody_viable (ts : List Token) : Viable IsOpenBlock (reader parseBody) ts := by
  rw [reader_parseBody]
  refine .bind ⟨parseStatements_sound ts, parseStatements_viable ts⟩ ?_ ?_
  · exact fun ks body h => ⟨[.mark .rightBrace], body, by simp, .mk h⟩
  · intro ks body mid _ h
    refine .bind (expect_adheres (by rintro ⟨⟩)) ?_ fun _ _ _ _ _ => .pure
    rintro _ _ rfl
    exact ⟨[], body, by simp, .mk h⟩
termination_by 4 * ts.length + 2

/-- What is read of statements before an error can be completed. -/
theorem parseStatements_viable (ts : List Token) :
    Viable AreStmts (reader parseStatements) ts := by
  rw [reader_parseStatements]
  refine .bind? (parseStatement?_viable ts) (parseStatement?_sound ts) ?_ .pure ?_
  · intro ks s hs
    have hone := AreStmts.cons hs .nil
    exact canEnd_after (by rwa [List.append_nil] at hone)
  · intro ks s mid _ hs
    refine .bind ⟨parseStatements_sound mid, parseStatements_viable mid⟩ ?_ fun _ _ _ _ _ => .pure
    exact fun ls body hbody => canEnd_after (.cons hs hbody)
termination_by 4 * ts.length + 1

/-- What is read of a statement before an error can be completed. -/
theorem parseStatement?_viable (ts : List Token) :
    Viable (Found IsStmt) (reader? parseStatement?) ts := by
  rw [reader?_parseStatement?]
  refine .accept rfl (.leading (.accept rfl .pure fun k head mid _ hhead => ?_)
    fun type mid _ hvoid => ?_) fun k opening mid hlt hopening => ?_
  · obtain rfl := Kind.name?_eq_some hhead
    refine .bind (parseEffect_adheres mid head) ?_ fun _ _ _ _ _ => .pure
    exact fun ks s hs => canEnd_after ⟨s, rfl, hs⟩
  · refine .bind (parseDeclaration_adheres mid type) ?_ fun _ _ _ _ _ => .pure
    rintro ks _ ⟨d, rfl, rfl, hd⟩
    exact canEnd_after ⟨_, rfl, .declare (fun h => by cases hvoid h) hd⟩
  · obtain rfl := opening?_eq_some hopening
    exact readOpened_viable opening mid
termination_by 4 * ts.length

/-- The same behind the token that opens a statement. -/
theorem readOpened_viable (opening : Opening) (ts : List Token) :
    Viable (Found (IsOpened opening)) (readOpened opening) ts := by
  match opening with
  | .conditional =>
    refine .bind (parseCondition_adheres ts _ _) ?_ ?_
    · exact fun ks e he => ⟨_, _, by simp, _, rfl, isOpened_ifThen he isBlock_nil⟩
    · intro ks e mid _ he
      refine .bind ⟨parseBlock_sound mid, parseBlock_viable mid⟩ ?_ ?_
      · intro ls body hbody
        rw [after_after]
        exact canEnd_after ⟨_, rfl, isOpened_ifThen he hbody⟩
      · intro ls body mid' _ hbody
        refine .skip (by rintro ⟨⟩) .pure fun mid'' _ => ?_
        rw [after_after, after_after]
        refine .bind ⟨parseBlock_sound mid'', parseBlock_viable mid''⟩ ?_ fun _ _ _ _ _ => .pure
        intro ms otherwise hotherwise
        rw [after_after, ← List.append_assoc, List.append_assoc]
        exact canEnd_after ⟨_, rfl, isOpened_ifElse he hbody hotherwise⟩
  | .loop =>
    refine .bind (parseCondition_adheres ts _ _) ?_ ?_
    · exact fun ks e he => ⟨_, _, by simp, _, rfl, isOpened_loop he isBlock_nil⟩
    · intro ks e mid _ he
      refine .bind ⟨parseBlock_sound mid, parseBlock_viable mid⟩ ?_ fun _ _ _ _ _ => .pure
      intro ls body hbody
      rw [after_after]
      exact canEnd_after ⟨_, rfl, isOpened_loop he hbody⟩
  | .result =>
    refine .bind (parseExpr_adheres ts) ?_ ?_
    · exact fun ks e he => ⟨_, _, by simp, _, rfl, isOpened_ret he⟩
    · intro ks e mid _ he
      refine .bind (expect_adheres (by rintro ⟨⟩)) ?_ fun _ _ _ _ _ => .pure
      rintro _ _ rfl
      exact ⟨[], _, by simp, _, rfl, isOpened_ret he⟩
  | .block =>
    refine .bind ⟨parseBody_sound ts, parseBody_viable ts⟩ ?_ fun _ _ _ _ _ => .pure
    exact fun ks body h => canEnd_after ⟨_, rfl, .block h⟩
termination_by 4 * ts.length + 3

end

end ClassLang
