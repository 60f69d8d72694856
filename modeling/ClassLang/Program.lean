import ClassLang.Expr
import ClassLang.Table

/-!
# Statements, definitions and programs

The trees above expressions. A program is two tables, one of functions and one
of classes; the order in which a text defines them leaves no trace in it. A
class on the other hand keeps its fields in the order of their declaration,
because that is the order in which they are set up.
-/

namespace ClassLang

/-- The declaration of a variable or a field. -/
structure Declaration where
  /-- the type it is declared with -/
  type : Ty
  /-- its name -/
  name : String
  /-- what it starts out as, if that is said -/
  initial : Option Expr

/-- Statements. -/
inductive Stmt where
  /-- declares a variable -/
  | declare (declaration : Declaration)
  /-- changes a variable or a member -/
  | assign (target : Target) (value : Expr)
  /-- a call, for its effect -/
  | call (expression : Expr)
  /-- ends the routine with a result -/
  | ret (value : Expr)
  /-- runs a block if the condition holds -/
  | ifThen (condition : Expr) (body : List Stmt)
  /-- runs one of two blocks -/
  | ifElse (condition : Expr) (body otherwise : List Stmt)
  /-- runs a block as long as the condition holds -/
  | loop (condition : Expr) (body : List Stmt)
  /-- runs a block -/
  | block (body : List Stmt)

/-- A parameter of a routine. -/
structure Parameter where
  /-- the type its argument must have -/
  type : Ty
  /-- its name -/
  name : String
  /-- is its final value written back to the argument? -/
  byReference : Bool
deriving DecidableEq

/-- A function, or a method of a class. -/
structure Routine where
  /-- the type its result must have -/
  returns : Ty
  /-- its name -/
  name : String
  /-- its parameters -/
  parameters : List Parameter
  /-- its statements -/
  body : List Stmt

/-- A class: its fields and its methods, in the order of their declaration. -/
structure ClassDef where
  /-- its name -/
  name : String
  /-- its fields -/
  fields : List Declaration
  /-- its methods -/
  methods : List Routine

/-- The methods of a class by their names. -/
def ClassDef.methodTable (c : ClassDef) : Table Routine :=
  .ofList (c.methods.map fun m => (m.name, m))

/-- The method of a name. -/
def ClassDef.method? (c : ClassDef) (name : String) : Option Routine :=
  c.methodTable.get? name

/-- A program: its functions and its classes by their names. -/
structure Program where
  /-- the functions -/
  functions : Table Routine := ∅
  /-- the classes -/
  classes : Table ClassDef := ∅

end ClassLang
