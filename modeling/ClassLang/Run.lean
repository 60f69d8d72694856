import ClassLang.Environment
import ClassLang.Heap

/-!
# Computations of a running program

A program runs on a `State`: the environment, the heap, how deeply calls and
constructions are nested, and the output so far. A computation (`Run`) takes a
state and ends with a value or an error, and in both cases with a new state: an
error does not undo what was done before it. A computation may also not end
within the fuel it was given, and then there is no state at all.

Everything that opens something closes it again, whether its body ends with a
value or an error:

* `Run.inBlock` — a scope;
* `Run.inCall` — a scope, and the pending result of a `return`;
* `Run.deeper` — one level of nesting, within a limit.

The rest of the module reads and writes states: `State.member` follows a path
of fields; a target is first resolved to the `Slot` it names, and the slot is
then written.
-/

namespace ClassLang

/-- The state of a running program. -/
structure State where
  /-- what names mean -/
  environment : Environment := {}
  /-- the objects -/
  heap : Heap := {}
  /-- how deeply calls and constructions are nested -/
  depth : Nat := 0
  /-- the output so far -/
  output : String := ""

/-- A computation: it ends with a value or an error in a new state, or has no
outcome because its fuel ran out. -/
def Run (α : Type) : Type := State → Option (Except RuntimeError α × State)

namespace Run

variable {α β : Type}

/-- Ends with a value and changes nothing. -/
@[always_inline, inline]
protected def pure (a : α) : Run α := fun s => some (.ok a, s)

/-- Goes on with the value of a computation. An error ends the whole. -/
@[always_inline, inline]
protected def bind (m : Run α) (f : α → Run β) : Run β := fun s =>
  match m s with
  | none => none
  | some (.ok a, s) => f a s
  | some (.error e, s) => some (.error e, s)

@[always_inline]
instance : Monad Run where
  pure := Run.pure
  bind := Run.bind

/-- No outcome. -/
def outOfFuel : Run α := fun _ => none

/-- Ends with an error and changes nothing. -/
@[always_inline, inline]
def fail (e : RuntimeError) : Run α := fun s => some (.error e, s)

/-- Ends as a check or a look-up says, and changes nothing. -/
@[always_inline, inline]
def ofExcept (x : Except RuntimeError α) : Run α := fun s => some (x, s)

/-- Looks something up in the state. -/
@[always_inline, inline]
def reads (f : State → α) : Run α := fun s => some (.ok (f s), s)

/-- Looks something up in the state that may not be there. -/
@[always_inline, inline]
def tryReads (f : State → Except RuntimeError α) : Run α := fun s => some (f s, s)

/-- Changes the state. -/
@[always_inline, inline]
def modify (f : State → State) : Run Unit := fun s => some (.ok (), f s)

/-- Changes the state, unless that fails. -/
@[always_inline, inline]
def tryModify (f : State → Except RuntimeError State) : Run Unit := fun s =>
  match f s with
  | .ok s => some (.ok (), s)
  | .error e => some (.error e, s)

/-- Runs a computation in a scope of its own. -/
def inBlock (body : Run α) : Run α := fun s =>
  match body { s with environment := s.environment.startBlock } with
  | none => none
  | some (result, s) => some (result, { s with environment := s.environment.endBlock })

/-- Runs the body of a call in a scope of its own. Its `return`, if there was
one, ends here; what it returned comes beside the value of the body. -/
def inCall (body : Run α) : Run (α × Value) := fun s =>
  match body { s with environment := s.environment.startBlock } with
  | none => none
  | some (result, s) =>
    let (returned, environment) := s.environment.leaveCall
    some (result.map (·, returned), { s with environment })

/-- Runs a computation one level deeper, if the limit on nesting allows it. -/
def deeper (limit : Nat) (body : Run α) : Run α := fun s =>
  if limit ≤ s.depth then some (.error (.callDepthExceeded limit), s)
  else
    match body { s with depth := s.depth + 1 } with
    | none => none
    | some (result, s) => some (result, { s with depth := s.depth - 1 })

/-- Is a `return` on its way out? -/
@[always_inline, inline]
def isReturning : Run Bool := reads (·.environment.isReturning)

/-- What a variable holds. -/
@[always_inline, inline]
def valueOf (name : String) : Run Value := tryReads (·.environment.get name)

/-- Declares a variable in the current scope. -/
@[always_inline, inline]
def declare (name : String) (value : Value) : Run Unit := tryModify fun s =>
  (s.environment.declare name value).map fun environment => { s with environment }

/-- Declares variables one after the other. -/
def declareAll : List (String × Value) → Run Unit
  | [] => pure ()
  | (name, value) :: rest => do
    declare name value
    declareAll rest

/-- Declares routines in the current scope. -/
def declareMethods (routines : List Routine) : Run Unit := modify fun s =>
  { s with environment := routines.foldl Environment.declareMethod s.environment }

/-- What variables hold. -/
def valuesOf : List String → Run (List Value)
  | [] => pure []
  | name :: rest => do
    let value ← valueOf name
    return value :: (← valuesOf rest)

/-- Makes an object. -/
def allocate (object : Object) : Run Ref := fun s =>
  let (ref, heap) := s.heap.allocate object
  some (.ok ref, { s with heap })

/-- Adds to the output. -/
def print (text : String) : Run Unit := modify fun s => { s with output := s.output ++ text }

end Run

/-- What a path leads to from a value. `name` is the way there so far, for the
report of an error. -/
def Heap.follow (h : Heap) (name : String) (value : Value) :
    List String → Except RuntimeError Value
  | [] => .ok value
  | segment :: path =>
    match value with
    | .object ref =>
      let name := name ++ "." ++ segment
      match h.field? ref segment with
      | some value => h.follow name value path
      | none => .error (.undeclaredSymbol name)
    | _ => .error (.notAnObject name)

/-- A place that holds a value. -/
inductive Slot where
  /-- the innermost variable of a name -/
  | var (name : String)
  /-- a field of an object -/
  | field (owner : Ref) (name : String)

namespace State

/-- What a member holds. -/
def member (s : State) (head : String) (path : List String) : Except RuntimeError Value := do
  s.heap.follow head (← s.environment.get head) path

/-- The object that a path leads to. -/
def objectAt (s : State) (head : String) (path : List String) : Except RuntimeError Ref := do
  match ← s.member head path with
  | .object ref => return ref
  | _ => throw (.notAnObject (dotted head path))

/-- The slot of a variable. -/
def variableSlot (s : State) (name : String) : Except RuntimeError Slot :=
  if s.environment.contains name then .ok (.var name) else .error (.undeclaredSymbol name)

/-- The slot that a target names: a variable, or the field at the end of a
path. -/
def slot (s : State) (target : Target) : Except RuntimeError Slot :=
  match target with
  | .var name => s.variableSlot name
  | .member head path =>
    match path.getLast? with
    | none => s.variableSlot head
    | some field => do
      let owner ← s.objectAt head path.dropLast
      if s.heap.hasField owner field then return .field owner field
      else throw (.undeclaredSymbol target.text)

/-- Puts a value into a slot. -/
def put (s : State) (slot : Slot) (value : Value) : State :=
  match slot with
  | .var name => { s with environment := s.environment.set name value }
  | .field owner name => { s with heap := s.heap.setField owner name value }

/-- Puts values into the fields of an object. -/
def putFields (s : State) (ref : Ref) (entries : List (String × Value)) : State :=
  { s with heap := entries.foldl (fun h (name, value) => h.setField ref name value) s.heap }

end State

/-- Changes what a target names. -/
def Run.write (target : Target) (value : Value) : Run Unit := do
  let slot ← Run.tryReads (·.slot target)
  Run.modify (·.put slot value)

end ClassLang
