import ClassLang.Token

/-!
# Parse errors

A parse stops at the first token that does not fit. The error keeps the tokens
that were unread at that point, so that it knows not only what was found but
where in the token list; what was wanted there is an `Expectation`, and all
wording stands in `Expectation.text`.
-/

namespace ClassLang

/-- What a parse can be looking for. -/
inductive Expectation where
  | programOpening
  | programClosing
  | endOfText
  | functionName
  | parametersOpening
  | parametersClosing
  | parameterType
  | parameterName
  | className
  | classOpening
  | classClosing
  | memberName
  | memberEnd
  | blockOpening
  | blockClosing
  | returnEnd
  | ifOpening
  | ifClosing
  | whileOpening
  | whileClosing
  | variableName
  | declarationEnd
  | callEnd
  | assignmentEnd
  | callOrAssignment
  | pathSegment
  | argumentsClosing
  | groupClosing
  | expression
deriving DecidableEq, Repr

/-- An expectation in words. -/
def Expectation.text : Expectation → String
  | programOpening => "'\x7b' opening the program"
  | programClosing => "'\x7d' closing the program"
  | endOfText => "end of text after the program"
  | functionName => "function name"
  | parametersOpening => "'(' after function name"
  | parametersClosing => "')' after parameters"
  | parameterType => "parameter type"
  | parameterName => "parameter name"
  | className => "class name"
  | classOpening => "'\x7b' opening the class body"
  | classClosing => "'\x7d' closing the class body"
  | memberName => "member name"
  | memberEnd => "';' after member declaration"
  | blockOpening => "'\x7b' opening a block"
  | blockClosing => "'\x7d' closing a block"
  | returnEnd => "';' after return value"
  | ifOpening => "'(' after 'if'"
  | ifClosing => "')' after if condition"
  | whileOpening => "'(' after 'while'"
  | whileClosing => "')' after while condition"
  | variableName => "variable name"
  | declarationEnd => "';' after variable declaration"
  | callEnd => "';' after call"
  | assignmentEnd => "';' after assignment"
  | callOrAssignment => "'(' or '=' after a name"
  | pathSegment => "member name after '.'"
  | argumentsClosing => "')' after arguments"
  | groupClosing => "')' after expression"
  | expression => "expression"

/-- The things that may be defined only once in their place. -/
inductive Definition where
  | function
  | cls
  | member
deriving DecidableEq, Repr

/-- What a definition is called. -/
def Definition.text : Definition → String
  | function => "function"
  | cls => "class"
  | member => "member"

/-- What is wrong with a token. -/
inductive Problem where
  /-- something else was wanted -/
  | expected (what : Expectation)
  /-- it names something that is defined already -/
  | redefined (what : Definition)
deriving DecidableEq, Repr

/-- Where a parse stopped, and why. -/
structure ParseError where
  /-- the tokens left, of which the first does not fit -/
  unread : List Token
  /-- what is wrong with it -/
  problem : Problem
deriving DecidableEq

/-- The first of the tokens left; the end of the text if there is none. -/
def peek (tokens : List Token) : Token := tokens.headD .missing

namespace ParseError

/-- The token that does not fit. -/
def token (e : ParseError) : Token := peek e.unread

/-- Where that token starts. -/
def position (e : ParseError) : Position := e.token.start

/-- What was wanted, in words. -/
def expected (e : ParseError) : String :=
  match e.problem with
  | .expected what => what.text
  | .redefined what => "a " ++ what.text ++ " name not defined before"

/-- What was found, in words. -/
def found (e : ParseError) : String :=
  match e.problem with
  | .expected _ => e.token.describe
  | .redefined _ => "redefinition of " ++ e.token.describe

/-- The report of a parse error. -/
def message (e : ParseError) : String :=
  "[" ++ e.position.text ++ "] Parse Error: expected " ++ e.expected ++ ", found " ++ e.found

end ParseError

end ClassLang
