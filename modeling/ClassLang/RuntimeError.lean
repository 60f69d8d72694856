import ClassLang.Expr

/-!
# Errors of a running program

Each error is a cause with the data its report names; the wording stands in
`RuntimeError.message` alone. Some errors say where a type or a number did not
fit: at an expression, at an argument of a call, or at its result (`Site`).
-/

namespace ClassLang

/-- What an error is about. -/
inductive Site where
  /-- an expression -/
  | expression (e : Expr)
  /-- the argument for a parameter of a routine -/
  | argument (parameter routine : String)
  /-- the result of a routine -/
  | result (routine : String)

/-- A site in words. -/
def Site.text : Site → String
  | expression e => e.text
  | argument parameter routine => "argument '" ++ parameter ++ "' of '" ++ routine ++ "'"
  | result routine => "return value of '" ++ routine ++ "'"

/-- Why a run ends without a result. -/
inductive RuntimeError where
  /-- there is no function to start with -/
  | mainNotDeclared
  /-- a value has another type than is wanted there -/
  | typeMismatch (site : Site) (expected found : Ty)
  /-- a declared name is given a value of another type -/
  | invalidInitialisation (name : String) (expected found : Ty)
  /-- a call has too many or too few arguments -/
  | incorrectArgumentsNumber (name : String) (expected found : Nat)
  /-- a number is divided by nought -/
  | divisionByZero (site : Site)
  /-- a name leads to no variable, field or class -/
  | undeclaredSymbol (name : String)
  /-- a name leads to no routine -/
  | undeclaredMethod (name : String)
  /-- a name is declared twice in one scope -/
  | alreadyDeclared (name : String)
  /-- what stands before the dot of a call is no object -/
  | invalidCall (name : String)
  /-- an operator has no meaning for its operands -/
  | unsupportedOperation (operator : String) (operand : Ty)
  /-- a path leads on from something that is no object -/
  | notAnObject (name : String)
  /-- a whole number left the range -/
  | overflow (site : Site)
  /-- calls and constructions are nested too deeply -/
  | callDepthExceeded (limit : Nat)

/-- The report of a runtime error. -/
def RuntimeError.message (e : RuntimeError) : String :=
  "Runtime Error: " ++
    match e with
    | mainNotDeclared => "function 'main' is not declared"
    | typeMismatch site expected found =>
      "type mismatch in " ++ site.text ++ ": expected " ++ expected.text ++ ", found "
        ++ found.text
    | invalidInitialisation name expected found =>
      "'" ++ name ++ "' is declared " ++ expected.text ++ " but initialised with " ++ found.text
    | incorrectArgumentsNumber name expected found =>
      "'" ++ name ++ "' takes " ++ toString expected ++ " arguments but was given "
        ++ toString found
    | divisionByZero site => "division by zero in " ++ site.text
    | undeclaredSymbol name => "undeclared symbol '" ++ name ++ "'"
    | undeclaredMethod name => "undeclared method '" ++ name ++ "'"
    | alreadyDeclared name => "'" ++ name ++ "' is already declared in this scope"
    | invalidCall name => "invalid call to '" ++ name ++ "'"
    | unsupportedOperation operator operand =>
      "operator '" ++ operator ++ "' is not supported for " ++ operand.text
    | notAnObject name => "'" ++ name ++ "' is not an object"
    | overflow site => "integer overflow in " ++ site.text
    | callDepthExceeded limit => "call depth exceeded " ++ toString limit

end ClassLang
