import ClassLang.Parse.Expr
import ClassLang.Program
import ClassLang.Token.Spelling

/-!
# Writing programs

The source text of a program, the other direction of parsing. A tree is first
written as the tokens it consists of, with parentheses exactly where an operand
belongs to a looser level than its place admits; the text is the spelling of
the tokens with a blank between them.

* `Expr.kinds`, `Stmt.kinds`, `Program.kinds` — the tokens.
* `Program.source` — the text.
-/

namespace ClassLang

/-- The token that names a type. -/
def Ty.kind : Ty → Kind
  | integer => .keyword .integerType
  | double => .keyword .doubleType
  | boolean => .keyword .booleanType
  | string => .keyword .stringType
  | void => .keyword .voidType
  | cls name => .identifier name

/-- The token of a logical operator. -/
def LogicOp.kind : LogicOp → Kind
  | or => .mark .pipe
  | and => .mark .ampersand

/-- The chain that a logical operator belongs to. -/
def LogicOp.chain : LogicOp → Chain
  | or => .disjunction
  | and => .conjunction

/-- The token of a binary operator. -/
def BinaryOp.kind : BinaryOp → Kind
  | add => .mark .plus
  | sub => .mark .minus
  | mul => .mark .star
  | div => .mark .slash
  | eq => .mark .equalEqual
  | ne => .mark .bangEqual

/-- The level that a binary operator belongs to. -/
def BinaryOp.level : BinaryOp → Level
  | add | sub => .chain .sum
  | mul | div => .chain .product
  | eq | ne => .equality

/-- The token of a relational operator. -/
def RelationOp.kind : RelationOp → Kind
  | lt => .mark .less
  | gt => .mark .greater
  | le => .mark .lessEqual
  | ge => .mark .greaterEqual

namespace Level

/-- The level of what may stand to the left of an operator: chains group to
the left, so there it is the level itself. -/
def left : Level → Level
  | chain c => .chain c
  | equality => .relation
  | relation => .chain .sum
  | primary => .primary

/-- The level of what may stand to the right of an operator. -/
def right : Level → Level
  | chain c => c.operand
  | equality => .relation
  | relation => .chain .sum
  | primary => .primary

end Level

/-- The tokens of a name and the path behind it. -/
def pathKinds (head : String) (path : List String) : List Kind :=
  .identifier head :: path.flatMap fun segment => [.mark .dot, .identifier segment]

/-- The tokens of a target. -/
def Target.kinds : Target → List Kind
  | var name => [.identifier name]
  | member head path => pathKinds head path

namespace Expr

/-- The level that an expression belongs to by its outermost operator. -/
def level : Expr → Level
  | logic op _ _ => .chain op.chain
  | binary op _ _ => op.level
  | boolean _ | not _ | relation _ _ _ _ => .relation
  | _ => .primary

/-- The tokens of an operand in a place of the given level: in parentheses if
it belongs to a looser one. -/
def enclose (place : Level) (e : Expr) (kinds : List Kind) : List Kind :=
  if e.level.rank ≤ place.rank then kinds
  else .mark .leftParen :: kinds ++ [.mark .rightParen]

mutual

/-- The tokens of an expression. The exclamation mark of a negated comparison
stands in front of it without parentheses. -/
def kinds : Expr → List Kind
  | integer value => [.integer value]
  | decimal whole fraction places => [.double whole fraction places]
  | string value => [.string value]
  | boolean value => [.keyword (if value then .trueWord else .falseWord)]
  | var name => [.identifier name]
  | member head path => pathKinds head path
  | not (relation op true left right) =>
    .mark .bang :: enclose Level.relation.left left left.kinds
      ++ op.kind :: enclose Level.relation.right right right.kinds
  | not operand => .mark .bang :: enclose Level.relation.left operand operand.kinds
  | logic op left right =>
    enclose (Level.chain op.chain).left left left.kinds
      ++ op.kind :: enclose (Level.chain op.chain).right right right.kinds
  | binary op left right =>
    enclose op.level.left left left.kinds
      ++ op.kind :: enclose op.level.right right right.kinds
  | relation op _ left right =>
    enclose Level.relation.left left left.kinds
      ++ op.kind :: enclose Level.relation.right right right.kinds
  | call target arguments =>
    target.kinds ++ .mark .leftParen :: argumentKinds arguments ++ [.mark .rightParen]
  | methodCall head path arguments =>
    pathKinds head path ++ .mark .leftParen :: argumentKinds arguments ++ [.mark .rightParen]

/-- The tokens of arguments, with commas between them. -/
def argumentKinds : List Expr → List Kind
  | [] => []
  | e :: rest => e.kinds ++ moreArgumentKinds rest

/-- The tokens of further arguments, each with a comma in front. -/
def moreArgumentKinds : List Expr → List Kind
  | [] => []
  | e :: rest => .mark .comma :: e.kinds ++ moreArgumentKinds rest

end

/-- The tokens of an expression in parentheses. -/
def conditionKinds (e : Expr) : List Kind :=
  .mark .leftParen :: e.kinds ++ [.mark .rightParen]

end Expr

/-- The tokens of a declaration. -/
def Declaration.kinds (d : Declaration) : List Kind :=
  let initial :=
    match d.initial with
    | none => []
    | some e => .mark .equal :: e.kinds
  d.type.kind :: .identifier d.name :: initial ++ [.mark .semicolon]

namespace Stmt

mutual

/-- The tokens of a statement. -/
def kinds : Stmt → List Kind
  | declare d => d.kinds
  | assign target value => target.kinds ++ .mark .equal :: value.kinds ++ [.mark .semicolon]
  | call e => e.kinds ++ [.mark .semicolon]
  | ret value => .keyword .returnWord :: value.kinds ++ [.mark .semicolon]
  | ifThen condition body =>
    .keyword .ifWord :: condition.conditionKinds
      ++ (.mark .leftBrace :: allKinds body ++ [.mark .rightBrace])
  | ifElse condition body otherwise =>
    .keyword .ifWord :: condition.conditionKinds
      ++ (.mark .leftBrace :: allKinds body ++ [.mark .rightBrace])
      ++ .keyword .elseWord :: (.mark .leftBrace :: allKinds otherwise ++ [.mark .rightBrace])
  | loop condition body =>
    .keyword .whileWord :: condition.conditionKinds
      ++ (.mark .leftBrace :: allKinds body ++ [.mark .rightBrace])
  | block body => .mark .leftBrace :: allKinds body ++ [.mark .rightBrace]

/-- The tokens of statements. -/
def allKinds : List Stmt → List Kind
  | [] => []
  | s :: rest => s.kinds ++ allKinds rest

end

end Stmt

/-- The tokens of a parameter. -/
def Parameter.kinds (p : Parameter) : List Kind :=
  p.type.kind :: (if p.byReference then [.mark .star] else []) ++ [.identifier p.name]

/-- The tokens of parameters, with commas between them. -/
def parameterKinds : List Parameter → List Kind
  | [] => []
  | p :: rest => p.kinds ++ rest.flatMap fun q => .mark .comma :: q.kinds

/-- The tokens of a routine. -/
def Routine.kinds (r : Routine) : List Kind :=
  r.returns.kind :: .identifier r.name :: .mark .leftParen :: parameterKinds r.parameters
    ++ .mark .rightParen :: .mark .leftBrace :: Stmt.allKinds r.body ++ [.mark .rightBrace]

/-- The tokens of a class: its fields, then its methods. -/
def ClassDef.kinds (c : ClassDef) : List Kind :=
  .keyword .classWord :: .identifier c.name :: .mark .leftBrace
    :: c.fields.flatMap Declaration.kinds ++ c.methods.flatMap Routine.kinds
    ++ [.mark .rightBrace]

namespace Program

/-- The tokens of a program: its functions, then its classes. -/
def kinds (p : Program) : List Kind :=
  .mark .leftBrace :: p.functions.values.flatMap Routine.kinds
    ++ p.classes.values.flatMap ClassDef.kinds ++ [.mark .rightBrace]

/-- The source text of a program. -/
def source (p : Program) : String :=
  " ".intercalate (p.kinds.map Kind.spelling)

end Program

end ClassLang
