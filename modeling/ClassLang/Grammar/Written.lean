import ClassLang.Grammar
import ClassLang.Program.WellFormed

/-!
# Written trees are grammatical

The tokens that a tree is written with derive it (`Program.isProgram_kinds`), as
long as it is a tree that a text can have. For expressions this comes down to
two facts: a level contains the tighter ones (`IsExpr.loosen`), and parentheses
bring any expression down to the tightest (`IsExpr.enclose`).
-/

namespace ClassLang

/-! ## Levels -/

namespace Level

/-- The next tighter level. Below a primary there is none. -/
def tighter : Level → Level
  | chain c => c.operand
  | equality => .relation
  | relation => .chain .sum
  | primary => .primary

theorem le_tighter {a b : Level} (h : a.rank ≤ b.rank) (hne : a ≠ b) :
    a.rank ≤ b.tighter.rank := by
  rcases a with (_ | _ | _ | _) | _ | _ | _ <;> rcases b with (_ | _ | _ | _) | _ | _ | _ <;>
    simp_all [rank, tighter, Chain.operand]

theorem rank_tighter_lt {b : Level} (h : b ≠ .primary) : b.tighter.rank < b.rank := by
  rcases b with (_ | _ | _ | _) | _ | _ | _ <;> simp_all [rank, tighter, Chain.operand]

theorem rank_le_top (a : Level) : a.rank ≤ top.rank := by
  rcases a with (_ | _ | _ | _) | _ | _ | _ <;> simp [rank, top]

theorem primary_rank_le (a : Level) : primary.rank ≤ a.rank := by
  rcases a with (_ | _ | _ | _) | _ | _ | _ <;> simp [rank]

end Level

namespace IsExpr

variable {level : Level} {ks : List Kind} {e : Expr}

/-- A level contains the next tighter one. -/
theorem of_tighter {next : Level} (h : IsExpr next.tighter ks e) : IsExpr next ks e := by
  rcases next with c | _ | _ | _
  · exact .operand h
  · exact .relation h
  · exact .sum h
  · exact h

/-- A level contains all tighter ones. -/
theorem loosen (h : IsExpr level ks e) (next : Level) (hle : level.rank ≤ next.rank) :
    IsExpr next ks e :=
  if heq : level = next then heq ▸ h
  else
    have hlt : next.tighter.rank < next.rank := Level.rank_tighter_lt fun hprimary => by
      subst hprimary
      exact absurd (Nat.le_antisymm hle level.primary_rank_le) fun hrank => heq (by
        rcases level with (_ | _ | _ | _) | _ | _ | _ <;> simp_all [Level.rank])
    of_tighter (loosen h next.tighter (Level.le_tighter hle heq))
termination_by next.rank

/-- An expression fits a place of any level once it is enclosed as that place
asks for. -/
theorem enclose (h : IsExpr e.level ks e) (place : Level) :
    IsExpr place (e.enclose place ks) e := by
  unfold Expr.enclose
  split
  · next hle => exact h.loosen place hle
  · exact (IsExpr.group (h.loosen .top e.level.rank_le_top)).loosen place place.primary_rank_le

end IsExpr

/-! ## Expressions -/

namespace Expr

mutual

/-- The tokens of an expression derive it. -/
theorem isExpr_kinds : ∀ e : Expr, e.wellFormed = true → IsExpr e.level e.kinds e
  | integer _, _ => .integer
  | decimal _ _ _, _ => .decimal
  | string _, _ => .string
  | boolean value, _ => .truth
  | var _, _ => .var
  | member head path, h => .member (by simpa [wellFormed] using h)
  | not operand, h => by
    have ih := isExpr_kinds operand
    rcases operand with
      _ | _ | _ | _ | _ | _ | _ | _ | _ | ⟨op, _ | _, left, right⟩ | _ | _
    case relation.true =>
      simp only [wellFormed, Bool.and_eq_true] at h
      exact .negatedComparison ((isExpr_kinds left h.1).enclose _)
        ((isExpr_kinds right h.2).enclose _)
    all_goals exact .negation ((ih h).enclose _)
  | logic op left right, h => by
    simp only [wellFormed, Bool.and_eq_true] at h
    exact .logic ((isExpr_kinds left h.1).enclose _) ((isExpr_kinds right h.2).enclose _)
  | binary op left right, h => by
    simp only [wellFormed, Bool.and_eq_true] at h
    have hleft := isExpr_kinds left h.1
    have hright := isExpr_kinds right h.2
    cases op with
    | eq | ne => exact .equality rfl (hleft.enclose _) (hright.enclose _)
    | add | sub | mul | div => exact .arithmetic rfl (hleft.enclose _) (hright.enclose _)
  | relation op negated left right, h => by
    simp only [wellFormed, Bool.and_eq_true, Bool.not_eq_true'] at h
    obtain ⟨⟨rfl, hleft⟩, hright⟩ := h
    exact .comparison ((isExpr_kinds left hleft).enclose _) ((isExpr_kinds right hright).enclose _)
  | call (.var name) arguments, h => .call (areArguments_kinds arguments h)
  | methodCall head path arguments, h => by
    simp only [wellFormed, Bool.and_eq_true, Bool.not_eq_true', List.isEmpty_eq_false_iff] at h
    exact .methodCall h.1 (areArguments_kinds arguments h.2)

/-- The tokens of arguments derive them. -/
theorem areArguments_kinds : ∀ es : List Expr, allWellFormed es = true →
    AreArguments (argumentKinds es) es
  | [], _ => .none
  | e :: rest, h => by
    simp only [allWellFormed, Bool.and_eq_true] at h
    exact .some ((isExpr_kinds e h.1).loosen .top (Level.rank_le_top _))
      (areMoreArguments_kinds rest h.2)

/-- The tokens of further arguments derive them. -/
theorem areMoreArguments_kinds : ∀ es : List Expr, allWellFormed es = true →
    AreMoreArguments (moreArgumentKinds es) es
  | [], _ => .none
  | e :: rest, h => by
    simp only [allWellFormed, Bool.and_eq_true] at h
    exact .some ((isExpr_kinds e h.1).loosen .top (Level.rank_le_top _))
      (areMoreArguments_kinds rest h.2)

end

/-- The tokens of an expression derive it where any expression may stand. -/
theorem isExpr_top (e : Expr) (h : e.wellFormed = true) : IsExpr .top e.kinds e :=
  (isExpr_kinds e h).loosen .top (Level.rank_le_top _)

theorem isCondition_kinds (e : Expr) (h : e.wellFormed = true) :
    IsCondition e.conditionKinds e :=
  .mk (e.isExpr_top h)

end Expr

/-! ## Statements -/

theorem Target.isTarget_kinds (target : Target) (h : target.wellFormed = true) :
    IsTarget target.kinds target := by
  cases target with
  | var name => exact .var
  | member head path => exact .member (by simpa [wellFormed] using h)

theorem Declaration.isDeclaration_kinds (d : Declaration) (h : d.wellFormed = true) :
    IsDeclaration d.kinds d := by
  obtain ⟨type, name, _ | e⟩ := d
  · exact .bare
  · exact .initialised (e.isExpr_top (by simpa [wellFormed] using h))

namespace Stmt

theorem isStmt_call (e : Expr) (h : isCall e = true) : IsStmt (call e).kinds (call e) := by
  cases e with
  | call target arguments =>
    simp only [isCall, Bool.and_eq_true] at h
    have hstmt := IsStmt.call (target.isTarget_kinds h.1) (Expr.areArguments_kinds arguments h.2)
    simpa [kinds, Expr.kinds] using hstmt
  | _ => simp [isCall] at h

mutual

/-- The tokens of a statement derive it. -/
theorem isStmt_kinds : ∀ s : Stmt, s.wellFormed = true → IsStmt s.kinds s
  | declare d, h => by
    simp only [wellFormed, Bool.and_eq_true, bne_iff_ne] at h
    exact .declare h.1 (d.isDeclaration_kinds h.2)
  | assign target value, h => by
    simp only [wellFormed, Bool.and_eq_true] at h
    exact .assign (target.isTarget_kinds h.1) (value.isExpr_top h.2)
  | call e, h => isStmt_call e h
  | ret value, h => .ret (value.isExpr_top h)
  | ifThen condition body, h => by
    simp only [wellFormed, Bool.and_eq_true] at h
    exact .ifThen (condition.isCondition_kinds h.1) (.mk (areStmts_kinds body h.2))
  | ifElse condition body otherwise, h => by
    simp only [wellFormed, Bool.and_eq_true] at h
    exact .ifElse (condition.isCondition_kinds h.1.1) (.mk (areStmts_kinds body h.1.2))
      (.mk (areStmts_kinds otherwise h.2))
  | loop condition body, h => by
    simp only [wellFormed, Bool.and_eq_true] at h
    exact .loop (condition.isCondition_kinds h.1) (.mk (areStmts_kinds body h.2))
  | block body, h => .block (.mk (areStmts_kinds body h))

/-- The tokens of statements derive them. -/
theorem areStmts_kinds : ∀ body : List Stmt, allWellFormed body = true →
    AreStmts (allKinds body) body
  | [], _ => .nil
  | s :: rest, h => by
    simp only [allWellFormed, Bool.and_eq_true] at h
    exact .cons (isStmt_kinds s h.1) (areStmts_kinds rest h.2)

end

end Stmt

/-! ## Definitions -/

theorem Routine.isRoutine_kinds (r : Routine) (h : r.wellFormed = true) :
    IsRoutine r.kinds r := by
  simp only [wellFormed, Bool.and_eq_true, List.all_eq_true, bne_iff_ne] at h
  have hroutine : IsRoutine _ r := .mk h.1 (.mk (Stmt.areStmts_kinds r.body h.2))
  simpa [kinds] using hroutine

theorem areMembers_kinds (methods : List Routine) (hmethods : ∀ m ∈ methods, m.wellFormed = true) :
    ∀ fields : List Declaration, (∀ d ∈ fields, d.wellFormed = true) →
      AreMembers (fields.flatMap Declaration.kinds ++ methods.flatMap Routine.kinds) fields methods
  | d :: fields, h => by
    rw [List.flatMap_cons, List.append_assoc]
    exact .field (d.isDeclaration_kinds (h d (by simp)))
      (areMembers_kinds methods hmethods fields fun d hd => h d (by simp [hd]))
  | [], _ => by
    induction methods with
    | nil => exact .nil
    | cons m methods ih =>
      rw [List.flatMap_nil, List.nil_append] at ih ⊢
      exact .method (m.isRoutine_kinds (hmethods m (by simp)))
        (ih fun m hm => hmethods m (by simp [hm]))

theorem ClassDef.isClass_kinds (c : ClassDef) (h : c.wellFormed = true) : IsClass c.kinds c := by
  simp only [wellFormed, Bool.and_eq_true, List.all_eq_true, decide_eq_true_eq] at h
  have hclass : IsClass _ c := .mk (areMembers_kinds c.methods h.2 c.fields h.1.2) h.1.1
  simpa [kinds] using hclass

theorem areDefinitions_kinds (classes : List ClassDef)
    (hclasses : ∀ c ∈ classes, c.wellFormed = true) :
    ∀ functions : List Routine, (∀ f ∈ functions, f.wellFormed = true) →
      AreDefinitions (functions.flatMap Routine.kinds ++ classes.flatMap ClassDef.kinds)
        functions classes
  | f :: functions, h => by
    rw [List.flatMap_cons, List.append_assoc]
    exact .function (f.isRoutine_kinds (h f (by simp)))
      (areDefinitions_kinds classes hclasses functions fun f hf => h f (by simp [hf]))
  | [], _ => by
    induction classes with
    | nil => exact .nil
    | cons c classes ih =>
      rw [List.flatMap_nil, List.nil_append] at ih ⊢
      exact .cls (c.isClass_kinds (hclasses c (by simp)))
        (ih fun c hc => hclasses c (by simp [hc]))

/-! ## Programs -/

namespace Table

variable {α : Type} {name : α → String}

/-- In a table that keeps things under their own names, the names of the things
are the names of the table. -/
theorem map_values_of_named (t : Table α) (h : ∀ entry ∈ t.entries, name entry.2 = entry.1) :
    t.values.map (fun a => (name a, a)) = t.entries := by
  rw [values, List.map_map]
  exact (List.map_congr_left fun entry hentry => by
    simp only [Function.comp_apply, h entry hentry, id]).trans (List.map_id _)

theorem forall_mem_values {p : α → Prop} (t : Table α) (h : ∀ entry ∈ t.entries, p entry.2) :
    ∀ a ∈ t.values, p a :=
  List.forall_mem_map.mpr h

/-- In a table that keeps things under their own names, no two things share a
name. -/
theorem nodup_map_values_of_named (t : Table α)
    (h : ∀ entry ∈ t.entries, name entry.2 = entry.1) : (t.values.map name).Nodup := by
  have hnames := t.nodup_names
  rw [names, ← t.map_values_of_named h, List.map_map] at hnames
  exact hnames

end Table

/-- **Writing is grammatical.** The tokens of a program that a text can have
derive it. -/
theorem Program.isProgram_kinds (p : Program) (h : p.wellFormed = true) :
    IsProgram p.kinds p := by
  simp only [wellFormed, Bool.and_eq_true, List.all_eq_true, beq_iff_eq] at h
  obtain ⟨hfunctions, hclasses⟩ := h
  have hfunctionNames := fun entry he => (hfunctions entry he).1
  have hclassNames := fun entry he => (hclasses entry he).1
  have hdefinitions := areDefinitions_kinds p.classes.values
    (p.classes.forall_mem_values fun entry he => (hclasses entry he).2) p.functions.values
    (p.functions.forall_mem_values fun entry he => (hfunctions entry he).2)
  have hprogram := IsProgram.mk hdefinitions
    (p.functions.nodup_map_values_of_named hfunctionNames)
    (p.classes.nodup_map_values_of_named hclassNames)
  rw [p.functions.map_values_of_named hfunctionNames, p.classes.map_values_of_named hclassNames,
    Table.ofList_entries, Table.ofList_entries] at hprogram
  simpa [kinds] using hprogram

end ClassLang
