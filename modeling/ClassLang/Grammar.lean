import ClassLang.Program.Source

/-!
# The grammar

Which lists of tokens are which trees, said without reading from left to right:
a construct derives the concatenation of what its parts derive. The relations
know nothing of look-ahead or of where a part ends. They are what parsing is
measured against, and `kinds` gives one of the lists that derive a tree.

* `IsExpr level kinds e` — the tokens are the expression at that level. A level
  contains the tighter ones, and a chain takes a chain on its left only.
* `IsStmt`, `IsBlock`, `IsRoutine`, `IsClass` — likewise for the larger trees.
* `IsProgram kinds p` — definitions between braces, in any order, with no name
  defined twice.
-/

namespace ClassLang

mutual

/-- The tokens are the expression, at a level. -/
inductive IsExpr : Level → List Kind → Expr → Prop where
  /-- an operand by itself -/
  | operand {c : Chain} {ks : List Kind} {e : Expr} :
    IsExpr c.operand ks e → IsExpr (.chain c) ks e
  /-- a disjunction or conjunction -/
  | logic {op : LogicOp} {ks ls : List Kind} {l r : Expr} :
    IsExpr (.chain op.chain) ks l → IsExpr op.chain.operand ls r →
    IsExpr (.chain op.chain) (ks ++ op.kind :: ls) (.logic op l r)
  /-- a sum, difference, product or quotient -/
  | arithmetic {op : BinaryOp} {c : Chain} {ks ls : List Kind} {l r : Expr} :
    op.level = .chain c → IsExpr (.chain c) ks l → IsExpr c.operand ls r →
    IsExpr (.chain c) (ks ++ op.kind :: ls) (.binary op l r)
  /-- a relation by itself -/
  | relation {ks : List Kind} {e : Expr} : IsExpr .relation ks e → IsExpr .equality ks e
  /-- two relations that are compared for equality -/
  | equality {op : BinaryOp} {ks ls : List Kind} {l r : Expr} :
    op.level = .equality → IsExpr .relation ks l → IsExpr .relation ls r →
    IsExpr .equality (ks ++ op.kind :: ls) (.binary op l r)
  /-- a truth value -/
  | truth {value : Bool} :
    IsExpr .relation [.keyword (if value then .trueWord else .falseWord)] (.boolean value)
  /-- a sum by itself -/
  | sum {ks : List Kind} {e : Expr} : IsExpr (.chain .sum) ks e → IsExpr .relation ks e
  /-- a sum with an exclamation mark in front -/
  | negation {ks : List Kind} {e : Expr} :
    IsExpr (.chain .sum) ks e → IsExpr .relation (.mark .bang :: ks) (.not e)
  /-- two sums that are compared by order -/
  | comparison {op : RelationOp} {ks ls : List Kind} {l r : Expr} :
    IsExpr (.chain .sum) ks l → IsExpr (.chain .sum) ls r →
    IsExpr .relation (ks ++ op.kind :: ls) (.relation op false l r)
  /-- a comparison with an exclamation mark in front, which negates the whole -/
  | negatedComparison {op : RelationOp} {ks ls : List Kind} {l r : Expr} :
    IsExpr (.chain .sum) ks l → IsExpr (.chain .sum) ls r →
    IsExpr .relation (.mark .bang :: ks ++ op.kind :: ls) (.not (.relation op true l r))
  /-- a whole number -/
  | integer {value : Integer} : IsExpr .primary [.integer value] (.integer value)
  /-- a number with a fraction -/
  | decimal {whole fraction : Integer} {places : Nat} :
    IsExpr .primary [.double whole fraction places] (.decimal whole fraction places)
  /-- a string -/
  | string {value : String} : IsExpr .primary [.string value] (.string value)
  /-- any expression in parentheses -/
  | group {ks : List Kind} {e : Expr} :
    IsExpr .top ks e → IsExpr .primary (.mark .leftParen :: ks ++ [.mark .rightParen]) e
  /-- a name -/
  | var {name : String} : IsExpr .primary [.identifier name] (.var name)
  /-- a name and a path behind it -/
  | member {head : String} {path : List String} :
    path ≠ [] → IsExpr .primary (pathKinds head path) (.member head path)
  /-- a call by a name -/
  | call {name : String} {ks : List Kind} {arguments : List Expr} :
    AreArguments ks arguments →
    IsExpr .primary (.identifier name :: .mark .leftParen :: ks ++ [.mark .rightParen])
      (.call (.var name) arguments)
  /-- a call by a name and a path behind it -/
  | methodCall {head : String} {path : List String} {ks : List Kind} {arguments : List Expr} :
    path ≠ [] → AreArguments ks arguments →
    IsExpr .primary (pathKinds head path ++ .mark .leftParen :: ks ++ [.mark .rightParen])
      (.methodCall head path arguments)

/-- The tokens are the arguments of a call, without the parentheses. -/
inductive AreArguments : List Kind → List Expr → Prop where
  /-- there are none -/
  | none : AreArguments [] []
  /-- a first one, and those behind it -/
  | some {ks ls : List Kind} {e : Expr} {rest : List Expr} :
    IsExpr .top ks e → AreMoreArguments ls rest → AreArguments (ks ++ ls) (e :: rest)

/-- The tokens are further arguments of a call, each with a comma in front. -/
inductive AreMoreArguments : List Kind → List Expr → Prop where
  /-- there are no more -/
  | none : AreMoreArguments [] []
  /-- one more, and those behind it -/
  | some {ks ls : List Kind} {e : Expr} {rest : List Expr} :
    IsExpr .top ks e → AreMoreArguments ls rest →
    AreMoreArguments (.mark .comma :: ks ++ ls) (e :: rest)

end

/-- The tokens are a target. -/
inductive IsTarget : List Kind → Target → Prop where
  /-- a name -/
  | var {name : String} : IsTarget [.identifier name] (.var name)
  /-- a name and a path behind it -/
  | member {head : String} {path : List String} :
    path ≠ [] → IsTarget (pathKinds head path) (.member head path)

/-- The tokens are a declaration. -/
inductive IsDeclaration : List Kind → Declaration → Prop where
  /-- a type and a name -/
  | bare {type : Ty} {name : String} :
    IsDeclaration [type.kind, .identifier name, .mark .semicolon] ⟨type, name, none⟩
  /-- a type and a name, and what the name starts out as -/
  | initialised {type : Ty} {name : String} {ks : List Kind} {e : Expr} :
    IsExpr .top ks e →
    IsDeclaration (type.kind :: .identifier name :: .mark .equal :: ks ++ [.mark .semicolon])
      ⟨type, name, some e⟩

/-- The tokens are an expression in parentheses. -/
inductive IsCondition : List Kind → Expr → Prop where
  /-- any expression -/
  | mk {ks : List Kind} {e : Expr} :
    IsExpr .top ks e → IsCondition (.mark .leftParen :: ks ++ [.mark .rightParen]) e

mutual

/-- The tokens are the statement. -/
inductive IsStmt : List Kind → Stmt → Prop where
  /-- a declaration of something that has a value -/
  | declare {ks : List Kind} {d : Declaration} :
    d.type ≠ .void → IsDeclaration ks d → IsStmt ks (.declare d)
  /-- an assignment -/
  | assign {ks ls : List Kind} {target : Target} {e : Expr} :
    IsTarget ks target → IsExpr .top ls e →
    IsStmt (ks ++ .mark .equal :: ls ++ [.mark .semicolon]) (.assign target e)
  /-- a call -/
  | call {ks ls : List Kind} {target : Target} {arguments : List Expr} :
    IsTarget ks target → AreArguments ls arguments →
    IsStmt (ks ++ .mark .leftParen :: ls ++ [.mark .rightParen, .mark .semicolon])
      (.call (.call target arguments))
  /-- a result -/
  | ret {ks : List Kind} {e : Expr} :
    IsExpr .top ks e → IsStmt (.keyword .returnWord :: ks ++ [.mark .semicolon]) (.ret e)
  /-- a block with a condition -/
  | ifThen {ks ls : List Kind} {e : Expr} {body : List Stmt} :
    IsCondition ks e → IsBlock ls body →
    IsStmt (.keyword .ifWord :: ks ++ ls) (.ifThen e body)
  /-- two blocks with a condition -/
  | ifElse {ks ls ms : List Kind} {e : Expr} {body otherwise : List Stmt} :
    IsCondition ks e → IsBlock ls body → IsBlock ms otherwise →
    IsStmt (.keyword .ifWord :: ks ++ ls ++ .keyword .elseWord :: ms)
      (.ifElse e body otherwise)
  /-- a block that is repeated -/
  | loop {ks ls : List Kind} {e : Expr} {body : List Stmt} :
    IsCondition ks e → IsBlock ls body →
    IsStmt (.keyword .whileWord :: ks ++ ls) (.loop e body)
  /-- a block -/
  | block {ks : List Kind} {body : List Stmt} : IsBlock ks body → IsStmt ks (.block body)

/-- The tokens are statements between braces. -/
inductive IsBlock : List Kind → List Stmt → Prop where
  /-- any statements -/
  | mk {ks : List Kind} {body : List Stmt} :
    AreStmts ks body → IsBlock (.mark .leftBrace :: ks ++ [.mark .rightBrace]) body

/-- The tokens are the statements, one after the other. -/
inductive AreStmts : List Kind → List Stmt → Prop where
  /-- there are none -/
  | nil : AreStmts [] []
  /-- a first one, and those behind it -/
  | cons {ks ls : List Kind} {s : Stmt} {rest : List Stmt} :
    IsStmt ks s → AreStmts ls rest → AreStmts (ks ++ ls) (s :: rest)

end

/-- The tokens are the routine. Its parameters have values, and commas stand
between them. -/
inductive IsRoutine : List Kind → Routine → Prop where
  /-- a type, a name, parameters and a block -/
  | mk {returns : Ty} {name : String} {parameters : List Parameter} {ks : List Kind}
      {body : List Stmt} :
    (∀ p ∈ parameters, p.type ≠ .void) → IsBlock ks body →
    IsRoutine
      (returns.kind :: .identifier name :: .mark .leftParen :: parameterKinds parameters
        ++ .mark .rightParen :: ks)
      ⟨returns, name, parameters, body⟩

/-- The tokens are the members of a class. Fields and methods may alternate;
each kind keeps its order. -/
inductive AreMembers : List Kind → List Declaration → List Routine → Prop where
  /-- there are none -/
  | nil : AreMembers [] [] []
  /-- a field, and the members behind it -/
  | field {ks ls : List Kind} {d : Declaration} {fields : List Declaration}
      {methods : List Routine} :
    IsDeclaration ks d → AreMembers ls fields methods →
    AreMembers (ks ++ ls) (d :: fields) methods
  /-- a method, and the members behind it -/
  | method {ks ls : List Kind} {m : Routine} {fields : List Declaration}
      {methods : List Routine} :
    IsRoutine ks m → AreMembers ls fields methods →
    AreMembers (ks ++ ls) fields (m :: methods)

/-- The tokens are the class, in which no member's name is used twice. -/
inductive IsClass : List Kind → ClassDef → Prop where
  /-- a name, and members between braces -/
  | mk {name : String} {ks : List Kind} {fields : List Declaration} {methods : List Routine} :
    AreMembers ks fields methods →
    (fields.map Declaration.name ++ methods.map Routine.name).Nodup →
    IsClass
      (.keyword .classWord :: .identifier name :: .mark .leftBrace :: ks
        ++ [.mark .rightBrace])
      ⟨name, fields, methods⟩

/-- The tokens are the functions and the classes, which may alternate. -/
inductive AreDefinitions : List Kind → List Routine → List ClassDef → Prop where
  /-- there are none -/
  | nil : AreDefinitions [] [] []
  /-- a function, and the definitions behind it -/
  | function {ks ls : List Kind} {f : Routine} {functions : List Routine}
      {classes : List ClassDef} :
    IsRoutine ks f → AreDefinitions ls functions classes →
    AreDefinitions (ks ++ ls) (f :: functions) classes
  /-- a class, and the definitions behind it -/
  | cls {ks ls : List Kind} {c : ClassDef} {functions : List Routine}
      {classes : List ClassDef} :
    IsClass ks c → AreDefinitions ls functions classes →
    AreDefinitions (ks ++ ls) functions (c :: classes)

/-- The tokens are the program: definitions between braces, none of a name that
another function or another class has. -/
inductive IsProgram : List Kind → Program → Prop where
  /-- any definitions -/
  | mk {ks : List Kind} {functions : List Routine} {classes : List ClassDef} :
    AreDefinitions ks functions classes →
    (functions.map Routine.name).Nodup → (classes.map ClassDef.name).Nodup →
    IsProgram (.mark .leftBrace :: ks ++ [.mark .rightBrace])
      { functions := .ofList (functions.map fun f => (f.name, f))
        classes := .ofList (classes.map fun c => (c.name, c)) }

/-- What a list of tokens holds before the end of the text. -/
def textKinds (tokens : List Token) : List Kind :=
  (tokens.map Token.kind).takeWhile (· != .stop)

end ClassLang
