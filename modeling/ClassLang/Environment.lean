import ClassLang.Native
import ClassLang.Program
import ClassLang.RuntimeError

/-!
# Environments

What names mean while a program runs. Scopes are stacked: the global scope is
at the bottom and always there, every block and every call puts one on top.
Look-ups go from the top down through the whole stack, so a routine sees
whatever its caller saw at the time of the call.

The environment also holds the natives, and the result of a `return` on its
way out of the blocks and loops of a routine.

* `lookup?`, `method?` — what a name means; `get` and `method` report names that
  mean nothing.
* `declare`, `assign` — the two ways to change a variable. They fail without
  changing anything.
* `startBlock`, `endBlock`, `leaveCall` — pushing and popping scopes. Popping
  stops at the global scope.
-/

namespace ClassLang

/-- The variables and routines declared in one block, call or program. -/
structure Scope where
  /-- the variables -/
  vars : Table Value := ∅
  /-- the routines -/
  methods : Table Routine := ∅

/-- What names mean. -/
structure Environment where
  /-- the scopes above the global one, innermost first -/
  inner : List Scope := []
  /-- the global scope -/
  global : Scope := {}
  /-- the natives by their names -/
  natives : Table Native := ∅
  /-- the result of a `return` that has not left its routine yet -/
  pendingReturn : Option Value := none

namespace Scope

/-- Declares a variable, unless its name is taken in this scope. -/
def declare (s : Scope) (name : String) (value : Value) : Except RuntimeError Scope :=
  if s.vars.contains name then .error (.alreadyDeclared name)
  else .ok { s with vars := s.vars.insert name value }

/-- Does the scope have a variable of this name? -/
def contains (s : Scope) (name : String) : Bool := s.vars.contains name

/-- Changes a variable, if it is of this scope. -/
def set (s : Scope) (name : String) (value : Value) : Scope :=
  { s with vars := s.vars.set name value }

/-- Declares a routine, in place of one with its name. -/
def declareMethod (s : Scope) (routine : Routine) : Scope :=
  { s with methods := s.methods.insert routine.name routine }

end Scope

/-- Changes a variable in the first scope that has it. -/
def setFirst (name : String) (value : Value) : List Scope → List Scope
  | [] => []
  | s :: rest =>
    if s.contains name then s.set name value :: rest else s :: setFirst name value rest

namespace Environment

/-- All scopes, innermost first. -/
def scopes (e : Environment) : List Scope := e.inner ++ [e.global]

/-- The scope that declarations go to. -/
def current (e : Environment) : Scope := e.inner.headD e.global

/-- What a variable holds, if there is one of this name. -/
def lookup? (e : Environment) (name : String) : Option Value :=
  (e.inner.findSome? (·.vars.get? name)).or (e.global.vars.get? name)

/-- The routine of a name, if there is one. -/
def method? (e : Environment) (name : String) : Option Routine :=
  (e.inner.findSome? (·.methods.get? name)).or (e.global.methods.get? name)

/-- Is there a variable of this name? -/
def contains (e : Environment) (name : String) : Bool :=
  e.inner.any (·.contains name) || e.global.contains name

/-- What a variable holds. -/
def get (e : Environment) (name : String) : Except RuntimeError Value :=
  match e.lookup? name with
  | some value => .ok value
  | none => .error (.undeclaredSymbol name)

/-- The routine of a name. -/
def method (e : Environment) (name : String) : Except RuntimeError Routine :=
  match e.method? name with
  | some routine => .ok routine
  | none => .error (.undeclaredMethod name)

/-- The native of a name, if there is one. -/
def native? (e : Environment) (name : String) : Option Native := e.natives.get? name

/-- Declares a variable in the current scope, unless its name is taken
there. -/
def declare (e : Environment) (name : String) (value : Value) :
    Except RuntimeError Environment :=
  match e.inner with
  | [] => (e.global.declare name value).map fun global => { e with global }
  | s :: rest => (s.declare name value).map fun s => { e with inner := s :: rest }

/-- Changes the innermost variable of a name, if there is one. -/
def set (e : Environment) (name : String) (value : Value) : Environment :=
  if e.inner.any (·.contains name) then { e with inner := setFirst name value e.inner }
  else { e with global := e.global.set name value }

/-- Changes the innermost variable of a name, which has to be there. -/
def assign (e : Environment) (name : String) (value : Value) :
    Except RuntimeError Environment :=
  if e.contains name then .ok (e.set name value) else .error (.undeclaredSymbol name)

/-- Declares a routine in the current scope. -/
def declareMethod (e : Environment) (routine : Routine) : Environment :=
  match e.inner with
  | [] => { e with global := e.global.declareMethod routine }
  | s :: rest => { e with inner := s.declareMethod routine :: rest }

/-- Declares a routine in the global scope. -/
def defineFunction (e : Environment) (routine : Routine) : Environment :=
  { e with global := e.global.declareMethod routine }

/-- Makes a native known, in place of one with its name. -/
def defineNative (e : Environment) (native : Native) : Environment :=
  { e with natives := e.natives.insert native.name native }

/-- Puts an empty scope on top, as a block or a call does. -/
def startBlock (e : Environment) : Environment := { e with inner := {} :: e.inner }

/-- Takes the top scope off. The global scope stays. -/
def endBlock (e : Environment) : Environment := { e with inner := e.inner.tail }

/-- Takes the scope of a call off, and gives what the call returns: nothing,
unless a `return` left a result. -/
def leaveCall (e : Environment) : Value × Environment :=
  (e.pendingReturn.getD .void, { e.endBlock with pendingReturn := none })

/-- Leaves the result of a `return`. -/
def setReturn (e : Environment) (value : Value) : Environment :=
  { e with pendingReturn := some value }

/-- Is a `return` on its way out? -/
def isReturning (e : Environment) : Bool := e.pendingReturn.isSome

end Environment

end ClassLang
