import ClassLang.Grammar.Written
import ClassLang.Proofs.Parser.Viable

/-!
# Expressions that are begun can be ended

By following the recursion of the parser, as for soundness. A name is an
expression at every level, so wherever an expression is still to come one token
is enough; and what is read of a larger expression is already one by itself,
except for a parenthesis that is open.
-/

namespace ClassLang

/-- There is an expression at every level. -/
theorem isExpr_name (level : Level) (name : String) :
    IsExpr level [.identifier name] (.var name) :=
  IsExpr.var.loosen level level.primary_rank_le

theorem areClosedMore_singleton {ks : List Kind} {e : Expr} (h : IsExpr .top ks e) :
    AreClosedMore (ks ++ [.mark .rightParen]) [e] :=
  ⟨ks, [], e, [], by simp, rfl, h, .none⟩

mutual

/-- What is read of an expression before an error can be completed, at every
level. -/
theorem parseLevel_viable (level : Level) (ts : List Token) :
    Viable (IsExpr level) (reader (parseLevel level)) ts := by
  match level with
  | .chain c =>
    rw [reader_chain]
    refine .bind ⟨parseLevel_sound _ ts, parseLevel_viable c.operand ts⟩
      (fun ks l hl => canEnd_after (.operand hl)) ?_
    exact fun ks l mid _ hl => parseChain_viable c l mid (.operand hl)
  | .equality =>
    rw [reader_equality]
    refine .bind ⟨parseLevel_sound _ ts, parseLevel_viable .relation ts⟩
      (fun ks l hl => canEnd_after (.relation hl)) ?_
    refine fun ks l mid _ hl => .accept rfl .pure fun k op mid' hlt hop => ?_
    obtain ⟨rfl, hlevel⟩ := equalityOp?_eq_some hop
    refine .bind ⟨parseLevel_sound _ mid', parseLevel_viable .relation mid'⟩ ?_
      fun _ _ _ _ _ => .pure
    intro ls r hr
    rw [after_after]
    exact canEnd_after (.equality hlevel hl hr)
  | .relation => exact parseRelation_viable ts
  | .primary => exact parsePrimary_viable ts
termination_by 32 * ts.length + 2 * level.rank + 1
decreasing_by
  · have := c.rank_operand_lt; omega
  · omega
  · simp [Level.rank]
  · simp only [Level.rank]; omega
  · simp only [Level.rank]; omega
  · simp only [Level.rank]; omega

/-- What is read of a chain before an error can be completed, behind what is read
already. -/
theorem parseChain_viable (c : Chain) (left : Expr) (ts : List Token) {ks : List Kind}
    (hleft : IsExpr (.chain c) ks left) :
    Viable (after ks (IsExpr (.chain c))) (reader (parseChain c left)) ts := by
  rw [reader_parseChain]
  refine .accept (by cases c <;> rfl) .pure fun k build mid _ hbuild => ?_
  rw [after_after]
  refine .bind ⟨parseLevel_sound _ mid, parseLevel_viable c.operand mid⟩ ?_ ?_
  · intro ls r hr
    rw [after_after, List.append_assoc]
    exact canEnd_after (isExpr_of_operator? hbuild hleft hr)
  · intro ls r mid' _ hr
    rw [after_after, List.append_assoc]
    exact parseChain_viable c (build left r) mid' (isExpr_of_operator? hbuild hleft hr)
termination_by 32 * ts.length
decreasing_by
  · have := c.operand.rank_lt; omega
  · omega

theorem parseRelation_viable (ts : List Token) :
    Viable (IsExpr .relation) (reader (parseLevel .relation)) ts := by
  rw [reader_relation]
  refine .accept rfl ?_ fun _ _ _ _ _ => .pure
  exact .skip (by rintro ⟨⟩) (parseComparison_viable false ts) fun mid _ =>
    parseComparison_viable true mid
termination_by 32 * ts.length + 10
decreasing_by
  · omega
  · omega

theorem parseComparison_viable (negated : Bool) (ts : List Token) :
    Viable (IsComparison negated) (reader (parseComparison negated)) ts := by
  rw [reader_parseComparison]
  refine .bind ⟨parseLevel_sound _ ts, parseLevel_viable (.chain .sum) ts⟩
    (fun ks l hl => canEnd_after (isComparison_sum hl)) ?_
  refine fun ks l mid _ hl => .accept rfl .pure fun k op mid' hlt hop => ?_
  obtain rfl := relationOp?_eq_some hop
  refine .bind ⟨parseLevel_sound _ mid', parseLevel_viable (.chain .sum) mid'⟩ ?_
    fun _ _ _ _ _ => .pure
  intro ls r hr
  rw [after_after]
  exact canEnd_after (isComparison_relation hl hr)
termination_by 32 * ts.length + 8
decreasing_by
  · simp [Level.rank]
  · simp only [Level.rank]; omega

theorem parsePrimary_viable (ts : List Token) :
    Viable (IsExpr .primary) (reader (parseLevel .primary)) ts := by
  rw [reader_primary]
  refine .accept rfl (.skip (by rintro ⟨⟩) ?_ fun mid _ => ?_) fun _ _ _ _ _ => .pure
  · refine .accept rfl (.fail ⟨_, _, by simp, isExpr_name _ "x"⟩) fun k head mid _ hhead => ?_
    obtain rfl := Kind.name?_eq_some hhead
    refine .bind (parsePath_adheres mid) ?_ ?_
    · rintro _ path rfl
      rw [after_after]
      exact canEnd_after isExpr_reference
    · rintro _ path mid' _ rfl
      refine .skip (by rintro ⟨⟩) .pure fun mid'' _ => ?_
      rw [after_after, after_after]
      refine .bind ⟨parseArguments_sound mid'', parseArguments_viable mid''⟩ ?_
        fun _ _ _ _ _ => .pure
      intro ks arguments harguments
      rw [after_after, List.append_assoc, List.append_assoc]
      exact canEnd_after (isExpr_callOf harguments)
  · refine .bind ⟨parseLevel_sound _ mid, parseLevel_viable .top mid⟩ ?_ ?_
    · exact fun ks e he => ⟨[.mark .rightParen], e, by simp, .group he⟩
    · intro ks e mid' _ he
      refine .bind (expect_adheres (by rintro ⟨⟩)) ?_ fun _ _ _ _ _ => .pure
      rintro _ _ rfl
      exact ⟨[], e, by simp, .group he⟩
termination_by 32 * ts.length + 2
decreasing_by
  · omega
  · simp only [Level.rank, Level.top]; omega

/-- What is read of arguments before an error can be completed. -/
theorem parseArguments_viable (ts : List Token) :
    Viable AreClosedArguments (reader parseArguments) ts := by
  rw [reader_parseArguments]
  refine .skip (by rintro ⟨⟩) ?_ fun _ _ => .pure
  exact (parseArgumentList_viable ts).imp fun _ _ h => h.areClosedArguments
termination_by 32 * ts.length + 22
decreasing_by
  · omega

theorem parseArgumentList_viable (ts : List Token) :
    Viable AreClosedMore (reader parseArgumentList) ts := by
  rw [reader_parseArgumentList]
  refine .bind ⟨parseLevel_sound _ ts, parseLevel_viable .top ts⟩ ?_ ?_
  · exact fun ks e he => ⟨[.mark .rightParen], [e], by simp, areClosedMore_singleton he⟩
  · intro ks e mid _ he
    refine .skip (by rintro ⟨⟩) ?_ fun mid' _ => ?_
    · refine .bind (expect_adheres (by rintro ⟨⟩)) ?_ fun _ _ _ _ _ => .pure
      rintro _ _ rfl
      exact ⟨[], [e], by simp, areClosedMore_singleton he⟩
    · refine .bind ⟨parseArgumentList_sound mid', parseArgumentList_viable mid'⟩ ?_
        fun _ _ _ _ _ => .pure
      intro ls more hmore
      rw [after_after]
      exact canEnd_after (hmore.cons he)
termination_by 32 * ts.length + 20
decreasing_by
  · simp [Level.rank, Level.top]
  · omega

end

end ClassLang
