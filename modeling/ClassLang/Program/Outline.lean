import ClassLang.Outline
import ClassLang.Program
import ClassLang.Token

/-!
# Outlines of tokens and programs

How the trees of this library are shown: which names the parts have and in
which order they stand. The names are part of the output format.
-/

namespace ClassLang

/-- The name of a reserved word in an outline. -/
def Keyword.title : Keyword → String
  | integerType => "IntegerType"
  | doubleType => "DoubleType"
  | booleanType => "BooleanType"
  | stringType => "StringType"
  | voidType => "VoidType"
  | ifWord => "If"
  | elseWord => "Else"
  | classWord => "Class"
  | returnWord => "Return"
  | whileWord => "While"
  | trueWord => "True"
  | falseWord => "False"

/-- The name of a mark in an outline. -/
def Mark.title : Mark → String
  | leftBrace => "LeftBrace"
  | rightBrace => "RightBrace"
  | leftParen => "LeftParen"
  | rightParen => "RightParen"
  | comma => "Comma"
  | dot => "Dot"
  | semicolon => "Semicolon"
  | plus => "Plus"
  | minus => "Minus"
  | star => "Star"
  | slash => "Slash"
  | pipe => "Pipe"
  | ampersand => "Ampersand"
  | bang => "Bang"
  | less => "Less"
  | lessEqual => "LessEqual"
  | greater => "Greater"
  | greaterEqual => "GreaterEqual"
  | equalEqual => "EqualEqual"
  | bangEqual => "BangEqual"
  | equal => "Equal"

/-- The name of a kind of token in an outline. -/
def Kind.title : Kind → String
  | keyword word => word.title
  | mark m => m.title
  | identifier _ => "Identifier"
  | integer _ => "Integer"
  | double _ _ _ => "Double"
  | string _ => "String"
  | stop => "EOT"

namespace Outline

/-- A whole number. -/
def integer (n : Integer) : Outline := leaf n.text

/-- A truth value. -/
def boolean (b : Bool) : Outline := leaf (if b then "true" else "false")

/-- The digits of a decimal literal on both sides of the point. -/
def decimalParts (whole fraction : Integer) (places : Nat) : List (String × Outline) :=
  [("int_part", integer whole), ("decimal", integer fraction),
    ("denominator", leaf (toString places))]

/-- A kind of token with the data it carries. -/
def kind (k : Kind) : Outline :=
  match k with
  | .identifier name => tagged k.title (string name)
  | .integer n => tagged k.title (integer n)
  | .double whole fraction places => record k.title (decimalParts whole fraction places)
  | .string value => tagged k.title (string value)
  | _ => leaf k.title

/-- A type. -/
def type : Ty → Outline
  | .integer => leaf "Integer"
  | .double => leaf "Double"
  | .boolean => leaf "Boolean"
  | .string => leaf "String"
  | .void => leaf "Void"
  | .cls name => tagged "Class" (string name)

/-- A name and the path behind it. -/
def pathParts (head : String) (path : List String) : List (String × Outline) :=
  [("parent", string head), ("path", list (path.map string))]

/-- A target. -/
def target : Target → Outline
  | .var name => tagged "Variable" (string name)
  | .member head path => record "Member" (pathParts head path)

/-- The name of a logical operator. -/
def logicOp : LogicOp → Outline
  | .or => leaf "Or"
  | .and => leaf "And"

/-- The name of a binary operator. -/
def binaryOp : BinaryOp → Outline
  | .add => leaf "Add"
  | .sub => leaf "Sub"
  | .mul => leaf "Mul"
  | .div => leaf "Div"
  | .eq => leaf "Equal"
  | .ne => leaf "NotEqual"

/-- The name of a relational operator. -/
def relationOp : RelationOp → Outline
  | .lt => leaf "Less"
  | .gt => leaf "Greater"
  | .le => leaf "LessEqual"
  | .ge => leaf "GreaterEqual"

mutual

/-- An expression. -/
def expr : Expr → Outline
  | .integer n => tagged "Integer" (integer n)
  | .decimal whole fraction places => record "Float" (decimalParts whole fraction places)
  | .string value => tagged "String" (string value)
  | .boolean value => tagged "Boolean" (boolean value)
  | .var name => tagged "Variable" (string name)
  | .member head path => record "ObjectVariable" (pathParts head path)
  | .not operand => tagged "Not" (expr operand)
  | .logic op left right =>
    record "Logical" [("operator", logicOp op), ("left", expr left), ("right", expr right)]
  | .binary op left right =>
    record "Binary" [("operator", binaryOp op), ("left", expr left), ("right", expr right)]
  | .relation op negated left right =>
    record "Relational"
      [("operator", relationOp op), ("negated", boolean negated), ("left", expr left),
        ("right", expr right)]
  | .call t arguments =>
    record "FunctionCall" [("name", target t), ("arguments", list (exprs arguments))]
  | .methodCall head path arguments =>
    record "ObjectMethod" (pathParts head path ++ [("arguments", list (exprs arguments))])

/-- Expressions. -/
def exprs : List Expr → List Outline
  | [] => []
  | e :: rest => expr e :: exprs rest

end

/-- A declaration. -/
def declaration (d : Declaration) : Outline :=
  record "InitStat"
    [("declared_type", type d.type), ("name", string d.name),
      ("initializer", optional (d.initial.map expr))]

/-- The parts of a conditional statement. -/
def conditional (condition : Expr) (body : Outline) (otherwise : Option Outline) : Outline :=
  record "IfElse"
    [("condition", expr condition), ("then_block", body), ("else_block", optional otherwise)]

mutual

/-- A statement. -/
def stmt : Stmt → Outline
  | .declare d => tagged "Init" (declaration d)
  | .assign t value => record "Assign" [("target", target t), ("value", expr value)]
  | .call e => tagged "Call" (expr e)
  | .ret value => tagged "Return" (expr value)
  | .ifThen condition body => conditional condition (list (stmts body)) none
  | .ifElse condition body otherwise =>
    conditional condition (list (stmts body)) (some (list (stmts otherwise)))
  | .loop condition body =>
    record "While" [("condition", expr condition), ("body", list (stmts body))]
  | .block body => tagged "Block" (list (stmts body))

/-- Statements. -/
def stmts : List Stmt → List Outline
  | [] => []
  | s :: rest => stmt s :: stmts rest

end

/-- A parameter. -/
def parameter (p : Parameter) : Outline :=
  record "Parameter"
    [("declared_type", type p.type), ("name", string p.name),
      ("by_reference", boolean p.byReference)]

/-- A routine. -/
def routine (r : Routine) : Outline :=
  record "FunctionDef"
    [("return_type", type r.returns), ("name", string r.name),
      ("params", list (r.parameters.map parameter)), ("body", list (stmts r.body))]

/-- A class. -/
def classDef (c : ClassDef) : Outline :=
  record "Class"
    [("name", string c.name), ("member_variables", list (c.fields.map declaration)),
      ("member_methods", list (c.methods.map routine))]

/-- A program. -/
def program (p : Program) : Outline :=
  record "Program"
    [("functions", table (p.functions.entries.map fun (name, r) => (name, routine r))),
      ("classes", table (p.classes.entries.map fun (name, c) => (name, classDef c)))]

end Outline

end ClassLang
