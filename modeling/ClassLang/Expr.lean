import ClassLang.Integer

/-!
# Types, names and expressions

The trees that programs are made of, up to expressions:

* `Ty` — a type as a declaration writes it, and as a value has it when running;
* `Target` — what a name leads to: a variable, or a member reached from one
  through a path of fields;
* `Expr` — expressions. A decimal literal keeps the digits on both sides of the
  point as numbers; which binary number it stands for is a matter of running.

`Expr.text` writes an expression with its operators in front, fully
parenthesised. Reports name the expression that went wrong by this text.
-/

namespace ClassLang

/-- A type: built in, or a class by its name. -/
inductive Ty where
  | integer
  | double
  | boolean
  | string
  | void
  | cls (name : String)
deriving DecidableEq

/-- The written form of a type. -/
def Ty.text : Ty → String
  | integer => "Integer"
  | double => "Double"
  | boolean => "Boolean"
  | string => "String"
  | void => "Void"
  | cls name => name

/-- The operators that join truth values. -/
inductive LogicOp where
  | or
  | and
deriving DecidableEq, Repr

/-- How a logical operator is written. -/
def LogicOp.symbol : LogicOp → String
  | or => "|"
  | and => "&"

/-- The operators of arithmetic and equality. -/
inductive BinaryOp where
  | add
  | sub
  | mul
  | div
  | eq
  | ne
deriving DecidableEq, Repr

/-- How a binary operator is written. -/
def BinaryOp.symbol : BinaryOp → String
  | add => "+"
  | sub => "-"
  | mul => "*"
  | div => "/"
  | eq => "=="
  | ne => "!="

/-- The operators that compare by order. -/
inductive RelationOp where
  | lt
  | gt
  | le
  | ge
deriving DecidableEq, Repr

/-- How a relational operator is written. -/
def RelationOp.symbol : RelationOp → String
  | lt => "<"
  | gt => ">"
  | le => "<="
  | ge => ">="

/-- A name with its path, joined by dots. -/
def dotted (head : String) (path : List String) : String :=
  path.foldl (fun name segment => name ++ "." ++ segment) head

/-- What a name leads to. -/
inductive Target where
  /-- a variable -/
  | var (name : String)
  /-- a member, reached from a variable through fields -/
  | member (head : String) (path : List String)
deriving DecidableEq

/-- The written form of a target. -/
def Target.text : Target → String
  | var name => name
  | member head path => dotted head path

/-- Expressions. -/
inductive Expr where
  /-- a whole number -/
  | integer (value : Integer)
  /-- a number with a fraction of so many decimal places -/
  | decimal (whole fraction : Integer) (places : Nat)
  /-- a string -/
  | string (value : String)
  /-- a truth value -/
  | boolean (value : Bool)
  /-- a variable, or a class by its name -/
  | var (name : String)
  /-- a member of an object -/
  | member (head : String) (path : List String)
  /-- negation of truth -/
  | not (operand : Expr)
  /-- conjunction or disjunction -/
  | logic (op : LogicOp) (left right : Expr)
  /-- arithmetic or equality -/
  | binary (op : BinaryOp) (left right : Expr)
  /-- comparison by order; `negated` records that an exclamation mark stands in
  front, whose effect is in the enclosing `not` -/
  | relation (op : RelationOp) (negated : Bool) (left right : Expr)
  /-- a call by name, or any call that stands as a statement -/
  | call (target : Target) (arguments : List Expr)
  /-- a dotted call inside an expression -/
  | methodCall (head : String) (path : List String) (arguments : List Expr)

/-- A decimal literal: the whole part, a point, and the fraction with zeros in
front up to the number of places. A sign counts as one of the places and
comes first. -/
def decimalText (whole fraction : Integer) (places : Nat) : String :=
  let digits := Nat.toDigits 10 fraction.val.natAbs
  let padded :=
    if fraction.val < 0 then '-' :: digits.leftpad (places - 1) '0'
    else digits.leftpad places '0'
  whole.text ++ "." ++ String.ofList padded

namespace Expr

mutual

/-- The expression with its operators in front, fully parenthesised. -/
def text : Expr → String
  | integer value => value.text
  | decimal whole fraction places => decimalText whole fraction places
  | string value => "\"" ++ value ++ "\""
  | boolean value => if value then "true" else "false"
  | var name => name
  | member head path => dotted head path
  | not operand => "(! " ++ operand.text ++ ")"
  | logic op left right => "(" ++ op.symbol ++ " " ++ left.text ++ " " ++ right.text ++ ")"
  | binary op left right => "(" ++ op.symbol ++ " " ++ left.text ++ " " ++ right.text ++ ")"
  | relation op _ left right => "(" ++ op.symbol ++ " " ++ left.text ++ " " ++ right.text ++ ")"
  | call target arguments => target.text ++ "(" ++ ", ".intercalate (texts arguments) ++ ")"
  | methodCall head path arguments =>
    dotted head path ++ "(" ++ ", ".intercalate (texts arguments) ++ ")"

/-- The texts of a list of expressions. -/
def texts : List Expr → List String
  | [] => []
  | e :: rest => e.text :: texts rest

end

theorem texts_eq_map (es : List Expr) : texts es = es.map text := by
  induction es with
  | nil => rfl
  | cons e rest ih => simp [texts, ih]

/-- The target that an argument names, if it names one. Only such arguments
can be written back to. -/
def target? : Expr → Option Target
  | var name => some (.var name)
  | member head path => some (.member head path)
  | _ => none

end Expr

end ClassLang
