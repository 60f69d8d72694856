import ClassLang.Program

/-!
# The parts of a program

What stands anywhere in a program: statements inside statements, expressions
inside expressions, and for every expression the place where it stands. Whether
something holds everywhere in a program, or only in some places, is said with
these.

* `Program.Defines r` — the routine is a function or a method of the program.
* `Program.HasStmt st` — the statement stands somewhere in the program.
* `Program.Occurs place e` — the expression stands at the place: as a part of a
  statement, as what a field starts out with, or inside another expression.

`Program.every` goes through all statements and expressions of a program and
decides whether something holds of each of them (`Program.of_every`).
-/

namespace ClassLang

namespace Expr

/-- The expressions directly inside an expression. -/
def operands : Expr → List Expr
  | not operand => [operand]
  | logic _ left right | binary _ left right | relation _ _ left right => [left, right]
  | call _ arguments | methodCall _ _ arguments => arguments
  | _ => []

/-- The arguments of a call. -/
def arguments? : Expr → Option (List Expr)
  | call _ arguments | methodCall _ _ arguments => some arguments
  | _ => none

variable (q : Expr → Bool)

mutual

/-- Does something hold of an expression and of every one inside of it? -/
def every : Expr → Bool
  | not operand => q (not operand) && operand.every
  | logic op left right => q (logic op left right) && left.every && right.every
  | binary op left right => q (binary op left right) && left.every && right.every
  | relation op negated left right =>
    q (relation op negated left right) && left.every && right.every
  | call target arguments => q (call target arguments) && allEvery arguments
  | methodCall head path arguments => q (methodCall head path arguments) && allEvery arguments
  | e => q e

/-- Does something hold of expressions and of every one inside of them? -/
def allEvery : List Expr → Bool
  | [] => true
  | e :: rest => e.every && allEvery rest

end

variable {q}

theorem every_of_mem {es : List Expr} (h : allEvery q es = true) :
    ∀ e ∈ es, e.every q = true := by
  induction es with
  | nil => exact fun _ he => by cases he
  | cons first rest ih =>
    simp only [allEvery, Bool.and_eq_true] at h
    exact List.forall_mem_cons.mpr ⟨h.1, ih h.2⟩

theorem of_every {e : Expr} (h : e.every q = true) :
    q e = true ∧ ∀ inner ∈ e.operands, inner.every q = true := by
  cases e with
  | not operand =>
    simp only [every, Bool.and_eq_true] at h
    exact ⟨h.1, List.forall_mem_singleton.mpr h.2⟩
  | logic _ left right | binary _ left right | relation _ _ left right =>
    simp only [every, Bool.and_eq_true] at h
    exact ⟨h.1.1, List.forall_mem_cons.mpr ⟨h.1.2, List.forall_mem_singleton.mpr h.2⟩⟩
  | call _ arguments | methodCall _ _ arguments =>
    simp only [every, Bool.and_eq_true] at h
    exact ⟨h.1, every_of_mem h.2⟩
  | _ => exact ⟨h, fun _ hinner => by cases hinner⟩

end Expr

namespace Stmt

/-- The statements directly inside a statement. -/
def nested : Stmt → List Stmt
  | ifThen _ body | loop _ body | block body => body
  | ifElse _ body otherwise => body ++ otherwise
  | _ => []

/-- The expressions directly inside a statement. -/
def expressions : Stmt → List Expr
  | declare d => d.initial.toList
  | assign _ e | call e | ret e | ifThen e _ | ifElse e _ _ | loop e _ => [e]
  | block _ => []

variable (q : Stmt → Bool)

mutual

/-- Does something hold of a statement and of every one inside of it? -/
def every : Stmt → Bool
  | ifThen condition body => q (ifThen condition body) && allEvery body
  | ifElse condition body otherwise =>
    q (ifElse condition body otherwise) && allEvery body && allEvery otherwise
  | loop condition body => q (loop condition body) && allEvery body
  | block body => q (block body) && allEvery body
  | st => q st

/-- Does something hold of statements and of every one inside of them? -/
def allEvery : List Stmt → Bool
  | [] => true
  | st :: rest => st.every && allEvery rest

end

variable {q}

theorem every_of_mem {body : List Stmt} (h : allEvery q body = true) :
    ∀ st ∈ body, st.every q = true := by
  induction body with
  | nil => exact fun _ hst => by cases hst
  | cons first rest ih =>
    simp only [allEvery, Bool.and_eq_true] at h
    exact List.forall_mem_cons.mpr ⟨h.1, ih h.2⟩

theorem of_every {st : Stmt} (h : st.every q = true) :
    q st = true ∧ ∀ inner ∈ st.nested, inner.every q = true := by
  cases st with
  | ifThen _ body | loop _ body | block body =>
    simp only [every, Bool.and_eq_true] at h
    exact ⟨h.1, every_of_mem h.2⟩
  | ifElse _ body otherwise =>
    simp only [every, Bool.and_eq_true] at h
    exact ⟨h.1.1, List.forall_mem_append.mpr ⟨every_of_mem h.1.2, every_of_mem h.2⟩⟩
  | _ => exact ⟨h, fun _ hinner => by cases hinner⟩

end Stmt

/-- Where an expression can stand. -/
inductive Place where
  /-- directly in a statement -/
  | statement (st : Stmt)
  /-- as what a field starts out with -/
  | field (d : Declaration)
  /-- directly inside another expression -/
  | inside (e : Expr)

namespace Program

variable (p : Program)

/-- A routine of a program: one of its functions, or a method of one of its
classes. -/
def Defines (r : Routine) : Prop :=
  r ∈ p.functions.values ∨ ∃ c ∈ p.classes.values, r ∈ c.methods

/-- The statement stands somewhere in the program. -/
inductive HasStmt : Stmt → Prop where
  /-- in the body of a routine -/
  | body {r : Routine} {st : Stmt} : p.Defines r → st ∈ r.body → HasStmt st
  /-- inside another statement -/
  | nested {st inner : Stmt} : HasStmt st → inner ∈ st.nested → HasStmt inner

/-- The expression stands at this place in the program. -/
inductive Occurs : Place → Expr → Prop where
  /-- directly in a statement -/
  | statement {st : Stmt} {e : Expr} :
    p.HasStmt st → e ∈ st.expressions → Occurs (.statement st) e
  /-- as what a field of a class starts out with -/
  | field {c : ClassDef} {d : Declaration} {e : Expr} :
    c ∈ p.classes.values → d ∈ c.fields → d.initial = some e → Occurs (.field d) e
  /-- directly inside another expression -/
  | inside {place : Place} {e inner : Expr} :
    Occurs place e → inner ∈ e.operands → Occurs (.inside e) inner

/-- The expression stands somewhere in the program. -/
def HasExpr (e : Expr) : Prop := ∃ place, p.Occurs place e

/-- The expression is an argument of some call in the program. -/
def HasArgument (argument : Expr) : Prop :=
  ∃ e arguments, p.HasExpr e ∧ e.arguments? = some arguments ∧ argument ∈ arguments

/-- Does something hold of every statement of the program, and something of
every expression? -/
def every (statement : Stmt → Bool) (expression : Expr → Bool) : Bool :=
  let body (r : Routine) : Bool := Stmt.allEvery
    (fun st => statement st && st.expressions.all (Expr.every expression)) r.body
  p.functions.values.all body && p.classes.values.all fun c =>
    c.fields.all (fun d => d.initial.all (Expr.every expression)) && c.methods.all body

section

variable {p} {statement : Stmt → Bool} {expression : Expr → Bool}
  (h : p.every statement expression = true)
include h

theorem every_of_hasStmt {st : Stmt} (hst : p.HasStmt st) :
    st.every (fun st => statement st && st.expressions.all (Expr.every expression)) = true := by
  simp only [every, Bool.and_eq_true, List.all_eq_true] at h
  induction hst with
  | body hr hst =>
    rcases hr with hr | ⟨c, hc, hr⟩
    · exact Stmt.every_of_mem (h.1 _ hr) _ hst
    · exact Stmt.every_of_mem ((h.2 c hc).2 _ hr) _ hst
  | nested _ hinner ih => exact (Stmt.of_every ih).2 _ hinner

theorem every_of_occurs {place : Place} {e : Expr} (he : p.Occurs place e) :
    e.every expression = true := by
  induction he with
  | statement hst he =>
    have hstatement := (Stmt.of_every (every_of_hasStmt h hst)).1
    simp only [Bool.and_eq_true, List.all_eq_true] at hstatement
    exact hstatement.2 _ he
  | field hc hd he =>
    simp only [every, Bool.and_eq_true, List.all_eq_true] at h
    have hfield := (h.2 _ hc).1 _ hd
    rwa [he] at hfield
  | inside _ hinner ih => exact (Expr.of_every ih).2 _ hinner

/-- What `every` finds is so. -/
theorem of_every :
    (∀ st, p.HasStmt st → statement st = true) ∧ ∀ e, p.HasExpr e → expression e = true := by
  refine ⟨fun st hst => ?_, fun e ⟨place, he⟩ => (Expr.of_every (every_of_occurs h he)).1⟩
  have hstatement := (Stmt.of_every (every_of_hasStmt h hst)).1
  simp only [Bool.and_eq_true] at hstatement
  exact hstatement.1

end

end Program

end ClassLang
