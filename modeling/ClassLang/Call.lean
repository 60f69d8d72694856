import ClassLang.Program
import ClassLang.RuntimeError
import ClassLang.Value

/-!
# Arguments and results of calls

What can be said about a call from the routine, the arguments as written and
the arguments as values, without running anything.

* `Routine.checkArguments` — their number and their types.
* `Routine.checkResult` — the type of the result.
* `Routine.bindings` — which arguments are written back to, and from which
  parameter. Arguments that are no variable and no member have nothing to
  write to.
-/

namespace ClassLang

/-- An argument to write back to when a call ends. -/
structure Binding where
  /-- what the argument names -/
  target : Target
  /-- the parameter whose final value goes there -/
  parameter : String
deriving DecidableEq

namespace Routine

/-- Refuses the first argument whose type is not that of its parameter. -/
def checkTypes (r : Routine) : List Parameter → List Value → Except RuntimeError Unit
  | p :: parameters, v :: values =>
    if v.type = p.type then r.checkTypes parameters values
    else .error (.typeMismatch (.argument p.name r.name) p.type v.type)
  | _, _ => .ok ()

/-- Refuses arguments whose number or types do not fit the parameters. -/
def checkArguments (r : Routine) (values : List Value) : Except RuntimeError Unit :=
  if r.parameters.length = values.length then r.checkTypes r.parameters values
  else .error (.incorrectArgumentsNumber r.name r.parameters.length values.length)

/-- Refuses a result that has another type than the routine declares. -/
def checkResult (r : Routine) (result : Value) : Except RuntimeError Unit :=
  if result.type = r.returns then .ok ()
  else .error (.typeMismatch (.result r.name) r.returns result.type)

/-- The binding of a parameter to its argument, if the parameter is one by
reference and the argument names something. -/
def binding? (p : Parameter) (argument : Expr) : Option Binding :=
  if p.byReference then argument.target?.map fun target => { target, parameter := p.name }
  else none

/-- The arguments to write back to, in the order of the parameters. -/
def bindings (r : Routine) (arguments : List Expr) : List Binding :=
  (r.parameters.zip arguments).filterMap fun (p, argument) => binding? p argument

end Routine

end ClassLang
