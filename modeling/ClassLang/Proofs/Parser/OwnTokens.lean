import ClassLang.Program.Parts
import ClassLang.Proofs.Parser.WellFormed

/-!
# The tokens of an expression in its program

The names and the literals of an expression are tokens of the text that it was
read from (`Expr.ownKinds`). So what goes for all tokens of a program goes for
those of each of its expressions (`IsProgram.every_own`).
-/

namespace ClassLang

namespace Expr

/-- The tokens of the names and the literal of an expression, without those of
its operands. -/
def ownKinds : Expr → List Kind
  | integer value => [.integer value]
  | decimal whole fraction places => [.double whole fraction places]
  | string value => [.string value]
  | var name => [.identifier name]
  | member head path | methodCall head path _ => pathKinds head path
  | call target _ => target.kinds
  | _ => []

/-- Does something hold of all tokens that are the expression's own? -/
def ownAll (P : Kind → Bool) (e : Expr) : Bool := e.ownKinds.all P

end Expr

variable {P : Kind → Bool}

/-! ## Expressions -/

mutual

/-- What goes for all tokens goes for the own tokens of all parts of an
expression. -/
theorem IsExpr.every_own {level : Level} {ks : List Kind} {e : Expr} (h : IsExpr level ks e)
    (hks : ks.all P = true) : e.every (Expr.ownAll P) = true := by
  match h with
  | .operand h | .relation h | .sum h => exact h.every_own hks
  | .group h =>
    simp only [List.cons_append, List.all_cons, List.all_append, Bool.and_eq_true] at hks
    exact h.every_own hks.2.1
  | .logic hl hr | .arithmetic _ hl hr | .equality _ hl hr | .comparison hl hr =>
    simp only [List.all_append, List.all_cons, Bool.and_eq_true] at hks
    simp [Expr.every, Expr.ownAll, Expr.ownKinds, hl.every_own hks.1, hr.every_own hks.2.2]
  | .negatedComparison hl hr =>
    simp only [List.cons_append, List.all_append, List.all_cons, Bool.and_eq_true] at hks
    simp [Expr.every, Expr.ownAll, Expr.ownKinds, hl.every_own hks.2.1, hr.every_own hks.2.2.2]
  | .negation h =>
    simp only [List.all_cons, Bool.and_eq_true] at hks
    simp [Expr.every, Expr.ownAll, Expr.ownKinds, h.every_own hks.2]
  | .truth => rfl
  | .integer | .decimal | .string | .var | .member _ => exact hks
  | .call h =>
    simp only [List.cons_append, List.all_append, List.all_cons, Bool.and_eq_true] at hks
    simp [Expr.every, Expr.ownAll, Expr.ownKinds, Target.kinds, hks.1, h.every_own hks.2.2.1]
  | .methodCall _ h =>
    simp only [List.append_assoc, List.cons_append, List.all_append, List.all_cons,
      Bool.and_eq_true] at hks
    simp [Expr.every, Expr.ownAll, Expr.ownKinds, hks.1, h.every_own hks.2.2.1]

theorem AreArguments.every_own {ks : List Kind} {es : List Expr} (h : AreArguments ks es)
    (hks : ks.all P = true) : Expr.allEvery (Expr.ownAll P) es = true := by
  match h with
  | .none => rfl
  | .some he hrest =>
    simp only [List.all_append, Bool.and_eq_true] at hks
    simp [Expr.allEvery, he.every_own hks.1, hrest.every_own hks.2]

theorem AreMoreArguments.every_own {ks : List Kind} {es : List Expr}
    (h : AreMoreArguments ks es) (hks : ks.all P = true) :
    Expr.allEvery (Expr.ownAll P) es = true := by
  match h with
  | .none => rfl
  | .some he hrest =>
    simp only [List.cons_append, List.all_append, List.all_cons, Bool.and_eq_true] at hks
    simp [Expr.allEvery, he.every_own hks.2.1, hrest.every_own hks.2.2]

end

/-- A target has the tokens from which it is derived. -/
theorem IsTarget.kinds_eq {ks : List Kind} {target : Target} (h : IsTarget ks target) :
    target.kinds = ks := by
  cases h <;> rfl

theorem IsDeclaration.every_own {ks : List Kind} {d : Declaration} (h : IsDeclaration ks d)
    (hks : ks.all P = true) : d.initial.all (Expr.every (Expr.ownAll P)) = true := by
  cases h with
  | bare => rfl
  | initialised he =>
    simp only [List.cons_append, List.all_append, List.all_cons, Bool.and_eq_true] at hks
    exact he.every_own hks.2.2.2.1

theorem IsCondition.every_own {ks : List Kind} {e : Expr} (h : IsCondition ks e)
    (hks : ks.all P = true) : e.every (Expr.ownAll P) = true := by
  cases h with
  | mk he =>
    simp only [List.cons_append, List.all_append, List.all_cons, Bool.and_eq_true] at hks
    exact he.every_own hks.2.1

/-! ## Statements -/

/-- Does something hold of all tokens that are own ones of the expressions in
the statement? -/
def Stmt.ownAll (P : Kind → Bool) (st : Stmt) : Bool :=
  st.expressions.all (Expr.every (Expr.ownAll P))

theorem Stmt.every_declare (d : Declaration) :
    (declare d).every (Stmt.ownAll P) = d.initial.all (Expr.every (Expr.ownAll P)) := by
  obtain ⟨type, name, _ | e⟩ := d <;> simp [every, ownAll, expressions]

mutual

/-- What goes for all tokens goes for the own tokens of all parts of a statement. -/
theorem IsStmt.every_own {ks : List Kind} {st : Stmt} (h : IsStmt ks st)
    (hks : ks.all P = true) : st.every (Stmt.ownAll P) = true := by
  match h with
  | .declare _ hd => rw [Stmt.every_declare, hd.every_own hks]
  | .assign _ he =>
    simp only [List.append_assoc, List.all_append, List.cons_append, List.all_cons,
      Bool.and_eq_true] at hks
    simp [Stmt.every, Stmt.ownAll, Stmt.expressions, he.every_own hks.2.2.1]
  | .call ht ha =>
    simp only [List.append_assoc, List.all_append, List.cons_append, List.all_cons,
      Bool.and_eq_true] at hks
    simp [Stmt.every, Stmt.ownAll, Stmt.expressions, Expr.every, Expr.ownAll, Expr.ownKinds,
      ht.kinds_eq, hks.1, ha.every_own hks.2.2.1]
  | .ret he =>
    simp only [List.all_append, List.cons_append, List.all_cons, Bool.and_eq_true] at hks
    simp [Stmt.every, Stmt.ownAll, Stmt.expressions, he.every_own hks.2.1]
  | .ifThen hc hb | .loop hc hb =>
    simp only [List.all_append, List.cons_append, List.all_cons, Bool.and_eq_true] at hks
    simp [Stmt.every, Stmt.ownAll, Stmt.expressions, hc.every_own hks.2.1, hb.every_own hks.2.2]
  | .ifElse hc hb ho =>
    simp only [List.append_assoc, List.all_append, List.cons_append, List.all_cons,
      Bool.and_eq_true] at hks
    simp [Stmt.every, Stmt.ownAll, Stmt.expressions, hc.every_own hks.2.1,
      hb.every_own hks.2.2.1, ho.every_own hks.2.2.2.2]
  | .block hb =>
    simp [Stmt.every, Stmt.ownAll, Stmt.expressions, hb.every_own hks]

theorem IsBlock.every_own {ks : List Kind} {body : List Stmt} (h : IsBlock ks body)
    (hks : ks.all P = true) : Stmt.allEvery (Stmt.ownAll P) body = true := by
  match h with
  | .mk h =>
    simp only [List.all_append, List.cons_append, List.all_cons, Bool.and_eq_true] at hks
    exact h.every_own hks.2.1

theorem AreStmts.every_own {ks : List Kind} {body : List Stmt} (h : AreStmts ks body)
    (hks : ks.all P = true) : Stmt.allEvery (Stmt.ownAll P) body = true := by
  match h with
  | .nil => rfl
  | .cons hs hrest =>
    simp only [List.all_append, Bool.and_eq_true] at hks
    simp [Stmt.allEvery, hs.every_own hks.1, hrest.every_own hks.2]

end

/-! ## Definitions -/

/-- The same of routines. -/
theorem IsRoutine.every_own {ks : List Kind} {r : Routine} (h : IsRoutine ks r)
    (hks : ks.all P = true) : Stmt.allEvery (Stmt.ownAll P) r.body = true := by
  cases h with
  | mk _ hbody =>
    simp only [List.all_append, List.cons_append, List.all_cons, Bool.and_eq_true] at hks
    exact hbody.every_own hks.2.2.2.2.2

/-- The same of the members of a class. -/
theorem AreMembers.every_own {ks : List Kind} {fields : List Declaration}
    {methods : List Routine} (h : AreMembers ks fields methods) (hks : ks.all P = true) :
    (∀ d ∈ fields, d.initial.all (Expr.every (Expr.ownAll P)) = true) ∧
      ∀ r ∈ methods, Stmt.allEvery (Stmt.ownAll P) r.body = true := by
  induction h with
  | nil => exact ⟨by simp, by simp⟩
  | field hd _ ih =>
    simp only [List.all_append, Bool.and_eq_true] at hks
    exact ⟨List.forall_mem_cons.mpr ⟨hd.every_own hks.1, (ih hks.2).1⟩, (ih hks.2).2⟩
  | method hm _ ih =>
    simp only [List.all_append, Bool.and_eq_true] at hks
    exact ⟨(ih hks.2).1, List.forall_mem_cons.mpr ⟨hm.every_own hks.1, (ih hks.2).2⟩⟩

/-- The same of all definitions of a program. -/
theorem AreDefinitions.every_own {ks : List Kind} {functions : List Routine}
    {classes : List ClassDef} (h : AreDefinitions ks functions classes) (hks : ks.all P = true) :
    (∀ r ∈ functions, Stmt.allEvery (Stmt.ownAll P) r.body = true) ∧
      ∀ c ∈ classes, (∀ d ∈ c.fields, d.initial.all (Expr.every (Expr.ownAll P)) = true) ∧
        ∀ r ∈ c.methods, Stmt.allEvery (Stmt.ownAll P) r.body = true := by
  induction h with
  | nil => exact ⟨by simp, by simp⟩
  | function hf _ ih =>
    simp only [List.all_append, Bool.and_eq_true] at hks
    exact ⟨List.forall_mem_cons.mpr ⟨hf.every_own hks.1, (ih hks.2).1⟩, (ih hks.2).2⟩
  | cls hc _ ih =>
    simp only [List.all_append, Bool.and_eq_true] at hks
    refine ⟨(ih hks.2).1, List.forall_mem_cons.mpr ⟨?_, (ih hks.2).2⟩⟩
    cases hc with
    | mk hmembers _ =>
      simp only [List.all_append, List.cons_append, List.all_cons, Bool.and_eq_true] at hks
      exact hmembers.every_own hks.1.2.2.2.1

/-- **What holds of all tokens of a program** holds of the own tokens of each of
its expressions. -/
theorem IsProgram.every_own {ks : List Kind} {p : Program} (h : IsProgram ks p)
    (hks : ks.all P = true) : p.every (fun _ => true) (Expr.ownAll P) = true := by
  cases h with
  | mk hdefinitions _ _ =>
    simp only [List.cons_append, List.all_cons, List.all_append, Bool.and_eq_true] at hks
    obtain ⟨hfunctions, hclasses⟩ := hdefinitions.every_own hks.2.1
    simp only [Program.every, Bool.true_and, Bool.and_eq_true, List.all_eq_true, Table.values,
      List.forall_mem_map]
    refine ⟨fun entry he => ?_, fun entry he => ?_⟩
    · exact hfunctions _ (Table.mem_entries_ofList_named he).2
    · exact hclasses _ (Table.mem_entries_ofList_named he).2

end ClassLang
