import ClassLang.Program.Parts
import ClassLang.Program.WellFormed
import ClassLang.Proofs.Routines

/-!
# The parts of a well-formed program

`Program.wellFormed` looks at a program from the top. For each of its parts it
says that it is one that can stand where it stands (`Program.IsShaped`). Two
forms of expressions are bound to one kind of place: a call in the form that
statements have, if its name is dotted, and a comparison that is marked as
negated. Everywhere else an expression is well formed (`Expr.Fits`).
-/

namespace ClassLang

/-! ## Expressions at their places -/

namespace Expr

/-- The expressions of a well-formed list are well-formed. -/
theorem wellFormed_of_mem {es : List Expr} {e : Expr} (h : allWellFormed es = true)
    (he : e ∈ es) : e.wellFormed = true := by
  induction es with
  | nil => cases he
  | cons first rest ih =>
    simp only [allWellFormed, Bool.and_eq_true] at h
    rcases List.mem_cons.mp he with rfl | he
    · exact h.1
    · exact ih h.2 he

/-- An expression that can stand at a place. -/
inductive Fits : Place → Expr → Prop where
  /-- anywhere, if it is well formed -/
  | anywhere {place : Place} {e : Expr} : e.wellFormed = true → Fits place e
  /-- a call that is a statement -/
  | call {target : Target} {arguments : List Expr} :
    target.wellFormed = true → allWellFormed arguments = true →
    Fits (.statement (.call (.call target arguments))) (.call target arguments)
  /-- a negated comparison, under its negation -/
  | negated {op : RelationOp} {left right : Expr} :
    left.wellFormed = true → right.wellFormed = true →
    Fits (.inside (.not (.relation op true left right))) (.relation op true left right)

/-- What stands directly inside a well-formed expression fits there. -/
theorem fits_of_mem_operands {e inner : Expr} (h : e.wellFormed = true)
    (hinner : inner ∈ e.operands) : Fits (.inside e) inner := by
  cases e with
  | not operand =>
    obtain rfl := List.mem_singleton.mp hinner
    cases inner with
    | relation op negated left right =>
      simp only [wellFormed, Bool.and_eq_true] at h
      cases negated with
      | true => exact .negated h.1 h.2
      | false => exact .anywhere (by simp [wellFormed, h.1, h.2])
    | _ => exact .anywhere h
  | logic _ left right | binary _ left right | relation _ _ left right =>
    simp only [wellFormed, Bool.and_eq_true] at h
    simp only [operands, List.mem_cons, List.not_mem_nil, or_false] at hinner
    rcases hinner with rfl | rfl <;> exact .anywhere (by simp only [h])
  | call target arguments =>
    cases target with
    | var name => exact .anywhere (wellFormed_of_mem h hinner)
    | member head path => cases h
  | methodCall head path arguments =>
    simp only [wellFormed, Bool.and_eq_true] at h
    exact .anywhere (wellFormed_of_mem h.2 hinner)
  | _ => cases hinner

/-- Operands fit inside of what fits its own place. -/
theorem Fits.inside {place : Place} {e inner : Expr} (h : Fits place e)
    (hinner : inner ∈ e.operands) : Fits (.inside e) inner := by
  cases h with
  | anywhere h => exact fits_of_mem_operands h hinner
  | call _ harguments => exact .anywhere (wellFormed_of_mem harguments hinner)
  | negated hleft hright =>
    simp only [operands, List.mem_cons, List.not_mem_nil, or_false] at hinner
    rcases hinner with rfl | rfl
    · exact .anywhere hleft
    · exact .anywhere hright

end Expr

/-! ## Statements -/

namespace Stmt

/-- The statements of a well-formed list are well-formed. -/
theorem wellFormed_of_mem {body : List Stmt} {st : Stmt} (h : allWellFormed body = true)
    (hst : st ∈ body) : st.wellFormed = true := by
  induction body with
  | nil => cases hst
  | cons first rest ih =>
    simp only [allWellFormed, Bool.and_eq_true] at h
    rcases List.mem_cons.mp hst with rfl | hst
    · exact h.1
    · exact ih h.2 hst

/-- The statements inside a well-formed statement are well-formed. -/
theorem wellFormed_nested {st inner : Stmt} (h : st.wellFormed = true)
    (hinner : inner ∈ st.nested) : inner.wellFormed = true := by
  cases st with
  | ifThen condition body | loop condition body =>
    simp only [wellFormed, Bool.and_eq_true] at h
    exact wellFormed_of_mem h.2 hinner
  | ifElse condition body otherwise =>
    simp only [wellFormed, Bool.and_eq_true] at h
    rcases List.mem_append.mp hinner with hinner | hinner
    · exact wellFormed_of_mem h.1.2 hinner
    · exact wellFormed_of_mem h.2 hinner
  | block body => exact wellFormed_of_mem h hinner
  | _ => cases hinner

/-- What stands as a statement is a call. -/
theorem isCall_eq_true {e : Expr} (h : isCall e = true) :
    ∃ target arguments, e = .call target arguments ∧ target.wellFormed = true ∧
      Expr.allWellFormed arguments = true := by
  cases e with
  | call target arguments =>
    simp only [isCall, Bool.and_eq_true] at h
    exact ⟨target, arguments, rfl, h.1, h.2⟩
  | _ => cases h

/-- What stands directly in a well-formed statement fits there. -/
theorem fits_of_mem_expressions {st : Stmt} {e : Expr} (h : st.wellFormed = true)
    (he : e ∈ st.expressions) : e.Fits (.statement st) := by
  cases st with
  | declare d =>
    simp only [wellFormed, Bool.and_eq_true, Declaration.wellFormed] at h
    have hinitial : d.initial = some e := Option.mem_toList.mp he
    rw [hinitial] at h
    exact .anywhere h.2
  | call expression =>
    obtain rfl := List.mem_singleton.mp he
    obtain ⟨target, arguments, rfl, htarget, harguments⟩ := isCall_eq_true h
    exact .call htarget harguments
  | ret value =>
    obtain rfl := List.mem_singleton.mp he
    exact .anywhere h
  | assign _ value | ifThen value _ | ifElse value _ _ | loop value _ =>
    obtain rfl := List.mem_singleton.mp he
    simp only [wellFormed, Bool.and_eq_true] at h
    exact .anywhere (by simp only [h])
  | block body => cases he

end Stmt

/-! ## Programs -/

namespace Program

variable {p : Program}

/-- What goes for the names, paths and places in every program that a text can
have. -/
structure IsShaped (p : Program) : Prop where
  /-- functions go by their names -/
  functions : ∀ name r, p.functions.get? name = some r → r.name = name
  /-- classes go by their names -/
  classes : ∀ name c, p.classes.get? name = some c → c.name = name
  /-- no two members of a class have one name -/
  members : ∀ name c, p.classes.get? name = some c → c.memberNames.Nodup
  /-- the path of a member is not empty -/
  memberPath : ∀ head path, p.HasExpr (.member head path) → path ≠ []
  /-- nor is that of a dotted call inside an expression -/
  methodPath : ∀ head path arguments, p.HasExpr (.methodCall head path arguments) → path ≠ []
  /-- nor is that of a dotted call that is a statement -/
  callPath : ∀ head path arguments, p.HasExpr (.call (.member head path) arguments) → path ≠ []
  /-- nor is that of a member that is assigned to -/
  targetPath : ∀ head path e, p.HasStmt (.assign (.member head path) e) → path ≠ []
  /-- what stands as a statement is a call -/
  callStatement : ∀ e, p.HasStmt (.call e) → ∃ target arguments, e = .call target arguments
  /-- a dotted call in the form that statements have is one -/
  dottedCall : ∀ place head path arguments,
    p.Occurs place (.call (.member head path) arguments) →
      place = .statement (.call (.call (.member head path) arguments))
  /-- a comparison that is marked as negated stands directly under a negation -/
  negatedRelation : ∀ place op left right, p.Occurs place (.relation op true left right) →
    place = .inside (.not (.relation op true left right))

section

variable (h : p.wellFormed = true)
include h

/-- A function of a well-formed program goes by its name and is well-formed. -/
theorem wellFormed_function {name : String} {r : Routine}
    (hr : p.functions.get? name = some r) : r.name = name ∧ r.wellFormed = true := by
  simp only [wellFormed, Bool.and_eq_true, List.all_eq_true, beq_iff_eq] at h
  exact h.1 (name, r) (p.functions.mem_entries_iff.mpr hr)

/-- A class of a well-formed program goes by its name and is well-formed. -/
theorem wellFormed_class {name : String} {c : ClassDef}
    (hc : p.classes.get? name = some c) : c.name = name ∧ c.wellFormed = true := by
  simp only [wellFormed, Bool.and_eq_true, List.all_eq_true, beq_iff_eq] at h
  exact h.2 (name, c) (p.classes.mem_entries_iff.mpr hc)

/-- The classes of a well-formed program are well-formed. -/
theorem wellFormed_of_mem_classes {c : ClassDef} (hc : c ∈ p.classes.values) :
    c.wellFormed = true := by
  obtain ⟨⟨name, _⟩, hentry, rfl⟩ := List.mem_map.mp hc
  exact (wellFormed_class h (p.classes.mem_entries_iff.mp hentry)).2

/-- So are all its routines, the methods among them. -/
theorem wellFormed_of_defines {r : Routine} (hr : p.Defines r) : r.wellFormed = true := by
  rcases hr with hr | ⟨c, hc, hr⟩
  · obtain ⟨⟨name, _⟩, hentry, rfl⟩ := List.mem_map.mp hr
    exact (wellFormed_function h (p.functions.mem_entries_iff.mp hentry)).2
  · have hclass := wellFormed_of_mem_classes h hc
    simp only [ClassDef.wellFormed, Bool.and_eq_true, List.all_eq_true] at hclass
    exact hclass.2 r hr

/-- So is every statement, however deep inside it stands. -/
theorem wellFormed_of_hasStmt {st : Stmt} (hst : p.HasStmt st) : st.wellFormed = true := by
  induction hst with
  | body hr hst =>
    have hroutine := wellFormed_of_defines h hr
    simp only [Routine.wellFormed, Bool.and_eq_true] at hroutine
    exact Stmt.wellFormed_of_mem hroutine.2 hst
  | nested _ hinner ih => exact Stmt.wellFormed_nested ih hinner

/-- Every expression fits the place where it stands. -/
theorem fits_of_occurs {place : Place} {e : Expr} (he : p.Occurs place e) : e.Fits place := by
  induction he with
  | statement hst he => exact Stmt.fits_of_mem_expressions (wellFormed_of_hasStmt h hst) he
  | @field c d e hc hd he =>
    have hclass := wellFormed_of_mem_classes h hc
    simp only [ClassDef.wellFormed, Bool.and_eq_true, List.all_eq_true] at hclass
    have hfield := hclass.1.2 d hd
    rw [Declaration.wellFormed, he] at hfield
    exact .anywhere hfield
  | inside _ hinner ih => exact ih.inside hinner

/-- A well-formed program has the shape of parsed ones. -/
theorem isShaped : p.IsShaped where
  functions _ _ hr := (wellFormed_function h hr).1
  classes _ _ hc := (wellFormed_class h hc).1
  members _ _ hc := by
    have hclass := (wellFormed_class h hc).2
    simp only [ClassDef.wellFormed, Bool.and_eq_true, decide_eq_true_eq] at hclass
    exact hclass.1.1
  memberPath head path he := by
    obtain ⟨place, he⟩ := he
    cases fits_of_occurs h he with
    | anywhere hpath => simpa [Expr.wellFormed] using hpath
  methodPath head path arguments he := by
    obtain ⟨place, he⟩ := he
    cases fits_of_occurs h he with
    | anywhere hcall =>
      simp only [Expr.wellFormed, Bool.and_eq_true] at hcall
      simpa using hcall.1
  callPath head path arguments he := by
    obtain ⟨place, he⟩ := he
    cases fits_of_occurs h he with
    | anywhere hcall => cases hcall
    | call hpath _ => simpa [Target.wellFormed] using hpath
  targetPath head path e hst := by
    have hassign := wellFormed_of_hasStmt h hst
    simp only [Stmt.wellFormed, Bool.and_eq_true] at hassign
    simpa [Target.wellFormed] using hassign.1
  callStatement e hst := by
    obtain ⟨target, arguments, heq, -⟩ := Stmt.isCall_eq_true (wellFormed_of_hasStmt h hst)
    exact ⟨target, arguments, heq⟩
  dottedCall place head path arguments he := by
    cases fits_of_occurs h he with
    | anywhere hcall => cases hcall
    | call => rfl
  negatedRelation place op left right he := by
    cases fits_of_occurs h he with
    | anywhere hrelation => cases hrelation
    | negated => rfl

end

end Program

end ClassLang
