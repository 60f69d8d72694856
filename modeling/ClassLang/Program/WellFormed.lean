import ClassLang.Program

/-!
# Programs that a text can have

Not every tree is the tree of a text. In those that are, paths are not empty, a
dotted call has one form inside expressions and another as a statement, a
comparison is marked as negated exactly if it stands directly under a negation
that says so, and names are defined once. `Program.wellFormed` decides all of
this.

Two further questions about statements have answers that can be read off the
tree: does a statement return on every path through it
(`Stmt.definitelyReturns`), and can it loop (`Stmt.isLoopFree`)?
-/

namespace ClassLang

namespace Expr

mutual

/-- Is this an expression that a text can have? -/
def wellFormed : Expr → Bool
  | member _ path => !path.isEmpty
  | not (relation _ _ left right) => left.wellFormed && right.wellFormed
  | not operand => operand.wellFormed
  | logic _ left right => left.wellFormed && right.wellFormed
  | binary _ left right => left.wellFormed && right.wellFormed
  | relation _ negated left right => !negated && left.wellFormed && right.wellFormed
  | call (.var _) arguments => allWellFormed arguments
  | call (.member _ _) _ => false
  | methodCall _ path arguments => !path.isEmpty && allWellFormed arguments
  | _ => true

/-- Are these expressions that a text can have? -/
def allWellFormed : List Expr → Bool
  | [] => true
  | e :: rest => e.wellFormed && allWellFormed rest

end

end Expr

/-- Is this a target that a text can have? -/
def Target.wellFormed : Target → Bool
  | var _ => true
  | member _ path => !path.isEmpty

/-- Is what a declaration starts out with, if anything, an expression that a
text can have? -/
def Declaration.wellFormed (d : Declaration) : Bool :=
  d.initial.all Expr.wellFormed

namespace Stmt

/-- Is this an expression that can stand as a statement? -/
def isCall : Expr → Bool
  | .call target arguments => target.wellFormed && Expr.allWellFormed arguments
  | _ => false

mutual

/-- Is this a statement that a text can have? -/
def wellFormed : Stmt → Bool
  | declare d => d.type != .void && d.wellFormed
  | assign target value => target.wellFormed && value.wellFormed
  | call e => isCall e
  | ret value => value.wellFormed
  | ifThen condition body => condition.wellFormed && allWellFormed body
  | ifElse condition body otherwise =>
    condition.wellFormed && allWellFormed body && allWellFormed otherwise
  | loop condition body => condition.wellFormed && allWellFormed body
  | block body => allWellFormed body

/-- Are these statements that a text can have? -/
def allWellFormed : List Stmt → Bool
  | [] => true
  | s :: rest => s.wellFormed && allWellFormed rest

end

mutual

/-- Does a statement return on every path through it? -/
def definitelyReturns : Stmt → Bool
  | ret _ => true
  | block body => anyReturns body
  | ifElse _ body otherwise => anyReturns body && anyReturns otherwise
  | _ => false

/-- Does one of the statements return on every path through it? -/
def anyReturns : List Stmt → Bool
  | [] => false
  | s :: rest => s.definitelyReturns || anyReturns rest

end

mutual

/-- Is there no loop in a statement? -/
def isLoopFree : Stmt → Bool
  | ifThen _ body => allLoopFree body
  | ifElse _ body otherwise => allLoopFree body && allLoopFree otherwise
  | loop _ _ => false
  | block body => allLoopFree body
  | _ => true

/-- Is there no loop in statements? -/
def allLoopFree : List Stmt → Bool
  | [] => true
  | s :: rest => s.isLoopFree && allLoopFree rest

end

mutual

/-- The statement without those that stand behind one that returns. -/
def pruned : Stmt → Stmt
  | ifThen condition body => ifThen condition (allPruned body)
  | ifElse condition body otherwise => ifElse condition (allPruned body) (allPruned otherwise)
  | loop condition body => loop condition (allPruned body)
  | block body => block (allPruned body)
  | s => s

/-- The statements up to the first that returns on every path. -/
def allPruned : List Stmt → List Stmt
  | [] => []
  | s :: rest => if s.definitelyReturns then [s.pruned] else s.pruned :: allPruned rest

end

end Stmt

namespace Routine

/-- Is this a routine that a text can have? -/
def wellFormed (r : Routine) : Bool :=
  r.parameters.all (·.type != .void) && Stmt.allWellFormed r.body

/-- The routine without the statements that cannot be reached. -/
def pruned (r : Routine) : Routine := { r with body := Stmt.allPruned r.body }

/-- Is there no loop in a routine? -/
def isLoopFree (r : Routine) : Bool := Stmt.allLoopFree r.body

end Routine

namespace ClassDef

/-- The names of the members of a class: its fields, then its methods. -/
def memberNames (c : ClassDef) : List String :=
  c.fields.map Declaration.name ++ c.methods.map Routine.name

/-- Is this a class that a text can have? -/
def wellFormed (c : ClassDef) : Bool :=
  decide c.memberNames.Nodup && c.fields.all Declaration.wellFormed
    && c.methods.all Routine.wellFormed

/-- The class without the statements that cannot be reached. -/
def pruned (c : ClassDef) : ClassDef := { c with methods := c.methods.map Routine.pruned }

end ClassDef

/-- The table with every entry changed. -/
def Table.map {α β : Type} (f : α → β) (t : Table α) : Table β where
  entries := t.entries.map fun (name, value) => (name, f value)
  sorted := List.pairwise_map.mpr t.sorted

namespace Program

/-- Is this a program that a text can have? -/
def wellFormed (p : Program) : Bool :=
  p.functions.entries.all (fun (name, r) => r.name == name && r.wellFormed)
    && p.classes.entries.all fun (name, c) => c.name == name && c.wellFormed

/-- The program without the statements that cannot be reached. -/
def pruned (p : Program) : Program :=
  { functions := p.functions.map Routine.pruned, classes := p.classes.map ClassDef.pruned }

/-- Is there no loop in a program? -/
def isLoopFree (p : Program) : Bool :=
  p.functions.values.all Routine.isLoopFree
    && p.classes.values.all fun c => c.methods.all Routine.isLoopFree

end Program

end ClassLang
