import ClassLang.Program.WellFormed
import ClassLang.Proofs.Parser.Program

/-!
# What is parsed is well formed

The grammar derives only trees that a text can have (`IsProgram.wellFormed`),
and so the parser gives no others.
-/

namespace ClassLang

namespace Expr

/-- The negation of an expression is well-formed, a comparison's included. -/
theorem wellFormed_not {e : Expr} (h : e.wellFormed = true) : (not e).wellFormed = true := by
  cases e with
  | relation op negated left right =>
    simp only [wellFormed, Bool.and_eq_true] at h ⊢
    exact ⟨h.1.2, h.2⟩
  | _ => exact h

end Expr

theorem Target.wellFormed_of_isTarget {ks : List Kind} {target : Target}
    (h : IsTarget ks target) : target.wellFormed = true := by
  cases h with
  | var => rfl
  | member hpath => simpa [wellFormed] using hpath

mutual

/-- What the grammar derives as an expression is well-formed. -/
theorem IsExpr.wellFormed {level : Level} {ks : List Kind} {e : Expr} (h : IsExpr level ks e) :
    e.wellFormed = true := by
  match h with
  | .operand h | .relation h | .sum h | .group h => exact h.wellFormed
  | .logic hl hr | .arithmetic _ hl hr | .equality _ hl hr | .comparison hl hr
  | .negatedComparison hl hr => simp [Expr.wellFormed, hl.wellFormed, hr.wellFormed]
  | .truth | .integer | .decimal | .string | .var => rfl
  | .negation h => exact Expr.wellFormed_not h.wellFormed
  | .member hpath => simpa [Expr.wellFormed] using hpath
  | .call h => exact h.allWellFormed
  | .methodCall hpath h => simp [Expr.wellFormed, hpath, h.allWellFormed]

theorem AreArguments.allWellFormed {ks : List Kind} {es : List Expr} (h : AreArguments ks es) :
    Expr.allWellFormed es = true := by
  match h with
  | .none => rfl
  | .some he hrest => simp [Expr.allWellFormed, he.wellFormed, hrest.allWellFormed]

theorem AreMoreArguments.allWellFormed {ks : List Kind} {es : List Expr}
    (h : AreMoreArguments ks es) : Expr.allWellFormed es = true := by
  match h with
  | .none => rfl
  | .some he hrest => simp [Expr.allWellFormed, he.wellFormed, hrest.allWellFormed]

end

theorem IsDeclaration.wellFormed {ks : List Kind} {d : Declaration} (h : IsDeclaration ks d) :
    d.wellFormed = true := by
  cases h with
  | bare => rfl
  | initialised he => exact he.wellFormed

theorem IsCondition.wellFormed {ks : List Kind} {e : Expr} (h : IsCondition ks e) :
    e.wellFormed = true := by
  cases h with
  | mk he => exact he.wellFormed

mutual

/-- What it derives as a statement is well-formed. -/
theorem IsStmt.wellFormed {ks : List Kind} {st : Stmt} (h : IsStmt ks st) :
    st.wellFormed = true := by
  match h with
  | .declare hvoid hd => simp [Stmt.wellFormed, hvoid, hd.wellFormed]
  | .assign ht he => simp [Stmt.wellFormed, Target.wellFormed_of_isTarget ht, he.wellFormed]
  | .call ht ha =>
    simp [Stmt.wellFormed, Stmt.isCall, Target.wellFormed_of_isTarget ht, ha.allWellFormed]
  | .ret he => exact he.wellFormed
  | .ifThen hc hb | .loop hc hb => simp [Stmt.wellFormed, hc.wellFormed, hb.allWellFormed]
  | .ifElse hc hb ho =>
    simp [Stmt.wellFormed, hc.wellFormed, hb.allWellFormed, ho.allWellFormed]
  | .block hb => exact hb.allWellFormed

theorem IsBlock.allWellFormed {ks : List Kind} {body : List Stmt} (h : IsBlock ks body) :
    Stmt.allWellFormed body = true := by
  match h with
  | .mk h => exact h.allWellFormed

theorem AreStmts.allWellFormed {ks : List Kind} {body : List Stmt} (h : AreStmts ks body) :
    Stmt.allWellFormed body = true := by
  match h with
  | .nil => rfl
  | .cons hs hrest => simp [Stmt.allWellFormed, hs.wellFormed, hrest.allWellFormed]

end

/-- Routines that are derived are well-formed. -/
theorem IsRoutine.wellFormed {ks : List Kind} {r : Routine} (h : IsRoutine ks r) :
    r.wellFormed = true := by
  cases h with
  | mk hvoid hbody => simpa [Routine.wellFormed, hbody.allWellFormed] using hvoid

theorem AreMembers.wellFormed {ks : List Kind} {fields : List Declaration}
    {methods : List Routine} (h : AreMembers ks fields methods) :
    (∀ d ∈ fields, d.wellFormed = true) ∧ ∀ r ∈ methods, r.wellFormed = true := by
  induction h with
  | nil => exact ⟨by simp, by simp⟩
  | field hd _ ih => exact ⟨List.forall_mem_cons.mpr ⟨hd.wellFormed, ih.1⟩, ih.2⟩
  | method hm _ ih => exact ⟨ih.1, List.forall_mem_cons.mpr ⟨hm.wellFormed, ih.2⟩⟩

/-- So are classes. -/
theorem IsClass.wellFormed {ks : List Kind} {c : ClassDef} (h : IsClass ks c) :
    c.wellFormed = true := by
  cases h with
  | mk hmembers hnodup =>
    obtain ⟨hfields, hmethods⟩ := hmembers.wellFormed
    simp only [ClassDef.wellFormed, Bool.and_eq_true, decide_eq_true_eq, List.all_eq_true]
    exact ⟨⟨hnodup, hfields⟩, hmethods⟩

theorem AreDefinitions.wellFormed {ks : List Kind} {functions : List Routine}
    {classes : List ClassDef} (h : AreDefinitions ks functions classes) :
    (∀ r ∈ functions, r.wellFormed = true) ∧ ∀ c ∈ classes, c.wellFormed = true := by
  induction h with
  | nil => exact ⟨by simp, by simp⟩
  | function hf _ ih => exact ⟨List.forall_mem_cons.mpr ⟨hf.wellFormed, ih.1⟩, ih.2⟩
  | cls hc _ ih => exact ⟨ih.1, List.forall_mem_cons.mpr ⟨hc.wellFormed, ih.2⟩⟩

/-- The entries of a table that keeps things under their own names. -/
theorem Table.mem_entries_ofList_named {α : Type} {name : α → String} {as : List α}
    {entry : String × α} (h : entry ∈ (ofList (as.map fun a => (name a, a))).entries) :
    name entry.2 = entry.1 ∧ entry.2 ∈ as := by
  obtain ⟨a, ha, rfl⟩ := List.mem_map.mp (mem_entries_ofList h)
  exact ⟨rfl, ha⟩

/-- If the names differ, nothing is missing in such a table. -/
theorem Table.mem_entries_ofList_named_iff {α : Type} {name : α → String} {as : List α}
    (h : (as.map name).Nodup) {entry : String × α} :
    entry ∈ (ofList (as.map fun a => (name a, a))).entries
      ↔ name entry.2 = entry.1 ∧ entry.2 ∈ as := by
  have hnames : (as.map fun a => (name a, a)).Pairwise fun a b => a.1 ≠ b.1 :=
    List.pairwise_map.mpr (List.pairwise_map.mp h)
  refine ⟨mem_entries_ofList_named, ?_⟩
  rintro ⟨hname, hmem⟩
  rw [mem_entries_ofList_iff hnames]
  exact List.mem_map.mpr ⟨entry.2, hmem, Prod.ext hname rfl⟩

/-- So are programs. -/
theorem IsProgram.wellFormed {ks : List Kind} {p : Program} (h : IsProgram ks p) :
    p.wellFormed = true := by
  cases h with
  | mk hdefinitions _ _ =>
    obtain ⟨hfunctions, hclasses⟩ := hdefinitions.wellFormed
    simp only [Program.wellFormed, Bool.and_eq_true, List.all_eq_true, beq_iff_eq]
    refine ⟨fun entry he => ?_, fun entry he => ?_⟩
    · obtain ⟨hname, hmem⟩ := Table.mem_entries_ofList_named he
      exact ⟨hname, hfunctions _ hmem⟩
    · obtain ⟨hname, hmem⟩ := Table.mem_entries_ofList_named he
      exact ⟨hname, hclasses _ hmem⟩

/-- Parsed programs are well-formed. -/
theorem wellFormed_of_parseProgram {tokens : List Token} {p : Program}
    (hp : parseProgram tokens = .ok p) : p.wellFormed = true := by
  obtain ⟨_, _, -, -, hprogram⟩ := isProgram_of_parseProgram hp
  exact hprogram.wellFormed

end ClassLang
