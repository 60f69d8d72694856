import ClassLang.Call
import ClassLang.Operator
import ClassLang.Run

/-!
# Running programs

Four functions run a program: `evaluate` for expressions, `execute` for
statements, `construct` for making objects and `invoke` for calling routines.
They call one another without bound, so each takes fuel and calls the others
with one unit less. What each of them does is said in a step of its own, which
takes whatever it calls as an argument (`Calls`), and so do the smaller steps
in front of it; what they keep can be said of them one by one.

The rules worth knowing:

* A routine sees the scopes of its caller. The scope of a method starts with
  copies of the fields of its object, which are written back when the call
  ends without an error.
* A parameter by reference is written back too, after the type of the result
  has been checked.
* The name of a class is a value. A declaration or an assignment that is given
  one makes an object.
* `|` leaves its right side alone if the left one holds; `&` evaluates both.
-/

namespace ClassLang

/-- What a run does not change: the program, and how deeply calls and
constructions may nest. -/
structure Context where
  /-- the program -/
  program : Program
  /-- the limit on nesting -/
  maxDepth : Nat := 200

namespace Context

/-- The class of a name. -/
def classNamed (cx : Context) (name : String) : Except RuntimeError ClassDef :=
  match cx.program.classes.get? name with
  | some c => .ok c
  | none => .error (.undeclaredSymbol name)

/-- The class of an object. -/
def classOf? (cx : Context) (ref : Ref) : Option ClassDef :=
  cx.program.classes.get? ref.className

/-- The method that an object has under a name. -/
def methodOf? (cx : Context) (ref : Ref) (name : String) : Option Routine :=
  (cx.classOf? ref).bind (·.method? name)

/-- All methods of an object. -/
def methodsOf (cx : Context) (ref : Ref) : List Routine :=
  (cx.classOf? ref).elim [] fun c => c.methodTable.values

end Context

/-! ## Steps that take the evaluator as an argument -/

/-- Evaluates expressions from left to right. -/
def evaluateAll (evaluate : Expr → Run Value) : List Expr → Run (List Value)
  | [] => pure []
  | e :: rest => do
    let value ← evaluate e
    return value :: (← evaluateAll evaluate rest)

/-- Executes statements up to a `return`. -/
def executeAll (execute : Stmt → Run Unit) : List Stmt → Run Unit
  | [] => pure ()
  | s :: rest => do
    execute s
    if ← Run.isReturning then return () else executeAll execute rest

/-- Makes an object of the class of a name. -/
def constructNamed (cx : Context) (construct : ClassDef → Run Ref) (name : String) :
    Run Value := do
  let c ← Run.ofExcept (cx.classNamed name)
  return .object (← construct c)

/-- The value that a declared name starts out with. -/
def initialValue (cx : Context) (evaluate : Expr → Run Value) (construct : ClassDef → Run Ref)
    (d : Declaration) : Run Value :=
  match d.initial, d.type with
  | none, .cls name => constructNamed cx construct name
  | none, type => return (Value.zero? type).getD .void
  | some e, type => do
    let value ←
      match ← evaluate e with
      | .cls name => constructNamed cx construct name
      | value => pure value
    if value.type = type then return value
    else Run.fail (.invalidInitialisation d.name type value.type)

/-- The values of the fields of a new object, in the order of their
declaration. Each is also declared in the current scope, where those behind it
see it. -/
def memberValues (initialValue : Declaration → Run Value) (fields : Table Value) :
    List Declaration → Run (Table Value)
  | [] => return fields
  | d :: rest => do
    let value ← initialValue d
    Run.declare d.name value
    memberValues initialValue (fields.insert d.name value) rest

/-- Calls a native. It sees the classes of the program and the objects made so
far. -/
def callNative (cx : Context) (evaluate : Expr → Run Value) (native : Native)
    (arguments : List Expr) : Run Value := do
  let values ← evaluateAll evaluate arguments
  let heap ← Run.reads (·.heap)
  Run.print (native.write { values, classes := cx.program.classes, heap })
  return .void

/-- A call by a name without dots: a class first, then the routines in sight,
then the natives. The name of a class takes no arguments and is the class. -/
def callFunction (cx : Context) (evaluate : Expr → Run Value)
    (invoke : Routine → List Expr → Option Ref → Run Value) (name : String)
    (arguments : List Expr) : Run Value :=
  if cx.program.classes.contains name then
    if arguments.isEmpty then return .cls name
    else Run.fail (.incorrectArgumentsNumber name 0 arguments.length)
  else do
    match ← Run.reads (·.environment.method? name) with
    | some routine => invoke routine arguments none
    | none =>
      match ← Run.reads (·.environment.native? name) with
      | some native => callNative cx evaluate native arguments
      | none => Run.fail (.undeclaredMethod name)

/-- A call by a dotted name: a native of that name first, then the method at
the end of the path. -/
def callMember (cx : Context) (evaluate : Expr → Run Value)
    (invoke : Routine → List Expr → Option Ref → Run Value) (head : String)
    (path : List String) (arguments : List Expr) : Run Value := do
  match ← Run.reads (·.environment.native? (dotted head path)) with
  | some native => callNative cx evaluate native arguments
  | none =>
    match ← Run.reads (·.environment.lookup? head), path.getLast? with
    | some (.object _), some name => do
      let receiver ← Run.tryReads (·.objectAt head path.dropLast)
      match cx.methodOf? receiver name with
      | some method => invoke method arguments (some receiver)
      | none => Run.fail (.undeclaredMethod (dotted head path))
    | _, _ => Run.fail (.invalidCall (dotted head path))

/-- Fills the scope of a call: the fields and methods of the object it is
called on, if there is one, and the parameters. -/
def bindCall (cx : Context) (routine : Routine) (values : List Value) (receiver : Option Ref) :
    Run Unit := do
  match receiver with
  | none => pure ()
  | some ref =>
    Run.declareAll (← Run.reads (·.heap.fields ref)).entries
    Run.declareMethods (cx.methodsOf ref)
  Run.declareAll ((routine.parameters.map Parameter.name).zip values)

/-- What the variables of a call hold in the end: the parameters to write back,
and the fields of the object the call is on. -/
def finalValues (bindings : List Binding) (receiver : Option Ref) :
    Run (List Value × List (String × Value)) := do
  let written ← Run.valuesOf (bindings.map Binding.parameter)
  match receiver with
  | none => return (written, [])
  | some ref =>
    let names := (← Run.reads (·.heap.fields ref)).names
    return (written, names.zip (← Run.valuesOf names))

/-- Writes values to the targets of bindings, from left to right. -/
def writeBack : List (Binding × Value) → Run Unit
  | [] => pure ()
  | (b, value) :: rest => do
    Run.write b.target value
    writeBack rest

/-- Can a binding be written to? A variable has to be in sight: the name of a
class, passed as an argument, names none. -/
def Binding.isVisible (e : Environment) (b : Binding) : Bool :=
  match b.target with
  | .var name => e.contains name
  | .member _ _ => true

/-- Executes statements in a scope of their own. -/
def executeBlock (execute : Stmt → Run Unit) (body : List Stmt) : Run Unit :=
  Run.inBlock (executeAll execute body)

/-! ## The four steps -/

/-- What a step of running can call: the four functions that run a program, and
going one level deeper. -/
structure Calls where
  /-- the value of an expression -/
  evaluate : Expr → Run Value
  /-- the effect of a statement -/
  execute : Stmt → Run Unit
  /-- a new object -/
  construct : ClassDef → Run Ref
  /-- the result of a routine -/
  invoke : Routine → List Expr → Option Ref → Run Value
  /-- a computation one level deeper -/
  deeper : {α : Type} → Run α → Run α

/-- The value of an expression. -/
def evaluateStep (cx : Context) (calls : Calls) : Expr → Run Value
  | .integer n => return .integer n
  | .decimal whole fraction places => return .double (Double.ofLiteral whole fraction places)
  | .string s => return .string s
  | .boolean b => return .boolean b
  | .var name => do
    match ← Run.reads (·.environment.lookup? name) with
    | some value => return value
    | none =>
      if cx.program.classes.contains name then return .cls name
      else Run.fail (.undeclaredSymbol name)
  | .member head path => Run.tryReads (·.member head path)
  | .not operand => do
    let value ← calls.evaluate operand
    return .boolean (!value.isTruthy)
  | .logic .or left right => do
    let l ← calls.evaluate left
    if l.isTruthy then return .boolean true
    else
      let r ← calls.evaluate right
      return .boolean r.isTruthy
  | .logic .and left right => do
    let l ← calls.evaluate left
    let r ← calls.evaluate right
    return .boolean (l.isTruthy && r.isTruthy)
  | .binary op left right => do
    let l ← calls.evaluate left
    let r ← calls.evaluate right
    Run.ofExcept (checkOperands (.binary op left right) l r)
    Run.ofExcept (op.apply (.binary op left right) l r)
  | .relation op negated left right => do
    let l ← calls.evaluate left
    let r ← calls.evaluate right
    Run.ofExcept (checkOperands (.relation op negated left right) l r)
    Run.ofExcept (op.apply l r)
  | .call (.var name) arguments => callFunction cx calls.evaluate calls.invoke name arguments
  | .call (.member head path) arguments =>
    callMember cx calls.evaluate calls.invoke head path arguments
  | .methodCall head path arguments =>
    callMember cx calls.evaluate calls.invoke head path arguments

/-- The effect of an assignment of a value. -/
def assign (cx : Context) (construct : ClassDef → Run Ref) (target : Target) :
    Value → Run Unit
  | .cls name => do
    let value ← constructNamed cx construct name
    -- A new object may come with a new variable; any other value needs an old one.
    match target with
    | .var x =>
      if ← Run.reads (·.environment.contains x) then Run.write target value
      else Run.declare x value
    | .member _ _ => Run.write target value
  | value => Run.write target value

/-- The effect of a statement. -/
def executeStep (cx : Context) (calls : Calls) : Stmt → Run Unit
  | .declare d => do
    let value ← initialValue cx calls.evaluate calls.construct d
    Run.declare d.name value
  | .assign target e => do
    assign cx calls.construct target (← calls.evaluate e)
  | .call e => do
    let _ ← calls.evaluate e
  | .ret e => do
    let value ← calls.evaluate e
    Run.modify fun s => { s with environment := s.environment.setReturn value }
  | .ifThen condition body => do
    if (← calls.evaluate condition).isTruthy then executeBlock calls.execute body
  | .ifElse condition body otherwise => do
    if (← calls.evaluate condition).isTruthy then executeBlock calls.execute body
    else executeBlock calls.execute otherwise
  | .loop condition body => do
    if (← calls.evaluate condition).isTruthy then
      executeBlock calls.execute body
      if ← Run.isReturning then return () else calls.execute (.loop condition body)
  | .block body => executeBlock calls.execute body

/-- Makes an object. Its fields are set up in the order of their declaration,
in a scope of their own. -/
def constructStep (cx : Context) (calls : Calls) (c : ClassDef) : Run Ref := do
  let fields ← calls.deeper <| Run.inBlock <|
    memberValues (initialValue cx calls.evaluate calls.construct) ∅ c.fields
  Run.allocate { className := c.name, fields }

/-- What happens in the scope of a call. -/
def callBody (cx : Context) (calls : Calls) (routine : Routine) (values : List Value)
    (receiver : Option Ref) (bindings : List Binding) :
    Run (List Value × List (String × Value)) := do
  bindCall cx routine values receiver
  executeAll calls.execute routine.body
  finalValues bindings receiver

/-- Calls a routine, on an object if there is a receiver. -/
def invokeStep (cx : Context) (calls : Calls) (routine : Routine) (arguments : List Expr)
    (receiver : Option Ref) : Run Value := do
  let values ← evaluateAll calls.evaluate arguments
  Run.ofExcept (routine.checkArguments values)
  -- Which names are in sight is settled before the scope of the call opens.
  let bindings ← Run.reads fun s =>
    (routine.bindings arguments).filter (·.isVisible s.environment)
  let ((written, fields), returned) ← calls.deeper <| Run.inCall <|
    callBody cx calls routine values receiver bindings
  -- The fields go back even if the result is about to be refused, the parameters do not.
  match receiver with
  | none => pure ()
  | some ref => Run.modify (·.putFields ref fields)
  Run.ofExcept (routine.checkResult returned)
  writeBack (bindings.zip written)
  return returned

/-! ## The interpreter -/

mutual

/-- The value of an expression. -/
def evaluate (cx : Context) : Nat → Expr → Run Value
  | 0, _ => Run.outOfFuel
  | fuel + 1, e => evaluateStep cx
    ⟨evaluate cx fuel, execute cx fuel, construct cx fuel, invoke cx fuel, .deeper cx.maxDepth⟩ e

/-- The effect of a statement. -/
def execute (cx : Context) : Nat → Stmt → Run Unit
  | 0, _ => Run.outOfFuel
  | fuel + 1, s => executeStep cx
    ⟨evaluate cx fuel, execute cx fuel, construct cx fuel, invoke cx fuel, .deeper cx.maxDepth⟩ s

/-- Makes an object. -/
def construct (cx : Context) : Nat → ClassDef → Run Ref
  | 0, _ => Run.outOfFuel
  | fuel + 1, c => constructStep cx
    ⟨evaluate cx fuel, execute cx fuel, construct cx fuel, invoke cx fuel, .deeper cx.maxDepth⟩ c

/-- Calls a routine, on an object if there is a receiver. -/
def invoke (cx : Context) : Nat → Routine → List Expr → Option Ref → Run Value
  | 0, _, _, _ => Run.outOfFuel
  | fuel + 1, routine, arguments, receiver => invokeStep cx
    ⟨evaluate cx fuel, execute cx fuel, construct cx fuel, invoke cx fuel, .deeper cx.maxDepth⟩
    routine arguments receiver

end

/-- What a step can call that is left with so much fuel. -/
def callsAt (cx : Context) (fuel : Nat) : Calls where
  evaluate := evaluate cx fuel
  execute := execute cx fuel
  construct := construct cx fuel
  invoke := invoke cx fuel
  deeper := Run.deeper cx.maxDepth

end ClassLang
