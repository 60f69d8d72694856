import ClassLang.Proofs.Places
import ClassLang.Session

/-!
# States without unreachable statements

Routines lie in the tables of scopes, so pruning a program prunes its states as
well (`State.pruned`). Names, values, objects and output stay, and so do the
parameters of a routine and the type of its result. Hence every look-up, check
and change does to a pruned state what it does to the state itself. Two things
can tell them apart: a routine that is looked up, which is pruned, and a native
that sees the bodies of methods (`Native.IgnoresBodies` says that it does not).
-/

namespace ClassLang

/-! ## Tables and definitions -/

namespace Table

variable {α β : Type}

/-- A table made of changed entries is the changed table. -/
theorem map_ofList (g : α → β) (entries : List (String × α)) :
    (ofList entries).map g = ofList (entries.map fun (name, value) => (name, g value)) := by
  suffices h : ∀ t : Table α,
      (entries.foldl (fun t entry => t.insert entry.1 entry.2) t).map g
        = (entries.map fun (name, value) => (name, g value)).foldl
            (fun t entry => t.insert entry.1 entry.2) (t.map g) from h ∅
  induction entries with
  | nil => exact fun _ => rfl
  | cons entry rest ih =>
    intro t
    rw [List.foldl_cons, ih, map_insert]
    rfl

theorem values_map (g : α → β) (t : Table α) : (t.map g).values = t.values.map g := by
  rw [values, values, map, List.map_map, List.map_map]
  rfl

theorem map_map {γ : Type} (g : α → β) (g' : β → γ) (t : Table α) :
    (t.map g).map g' = t.map (g' ∘ g) :=
  ext_get? fun name => by rw [get?_map, get?_map, get?_map, Option.map_map]

end Table

namespace Routine

/-- Arguments are checked against the parameters, and those stay. -/
theorem checkTypes_pruned (r : Routine) :
    ∀ (parameters : List Parameter) (values : List Value),
      r.pruned.checkTypes parameters values = r.checkTypes parameters values
  | [], _ => by simp only [checkTypes]
  | _ :: _, [] => by simp only [checkTypes]
  | p :: parameters, v :: values => by
    rw [checkTypes, checkTypes, checkTypes_pruned r parameters values]
    rfl

/-- Pruning leaves the parameters, so arguments are checked alike. -/
theorem checkArguments_pruned (r : Routine) (values : List Value) :
    r.pruned.checkArguments values = r.checkArguments values := by
  rw [checkArguments, checkArguments, checkTypes_pruned]
  rfl

end Routine

/-- The methods of a pruned class are its methods, pruned. -/
theorem ClassDef.methodTable_pruned (c : ClassDef) :
    c.pruned.methodTable = c.methodTable.map Routine.pruned := by
  rw [methodTable, methodTable, Table.map_ofList, pruned, List.map_map, List.map_map]
  rfl

namespace Context

/-- The same, with a program without unreachable statements. -/
def pruned (cx : Context) : Context := { cx with program := cx.program.pruned }

variable (cx : Context)

theorem contains_classes_pruned (name : String) :
    cx.pruned.program.classes.contains name = cx.program.classes.contains name :=
  Table.contains_map ..

/-- The class of a name is the pruned one. -/
theorem classNamed_pruned (name : String) :
    cx.pruned.classNamed name = (cx.classNamed name).map ClassDef.pruned := by
  have hclass : cx.pruned.program.classes.get? name
      = (cx.program.classes.get? name).map ClassDef.pruned := Table.get?_map ..
  rw [classNamed, classNamed, hclass]
  cases cx.program.classes.get? name <;> rfl

theorem classOf?_pruned (ref : Ref) :
    cx.pruned.classOf? ref = (cx.classOf? ref).map ClassDef.pruned :=
  Table.get?_map ..

/-- So is a method of an object. -/
theorem methodOf?_pruned (ref : Ref) (name : String) :
    cx.pruned.methodOf? ref name = (cx.methodOf? ref name).map Routine.pruned := by
  rw [methodOf?, methodOf?, classOf?_pruned]
  rcases cx.classOf? ref with _ | c
  · rfl
  · change c.pruned.methodTable.get? name = (c.methodTable.get? name).map Routine.pruned
    rw [c.methodTable_pruned, Table.get?_map]

theorem methodsOf_pruned (ref : Ref) :
    cx.pruned.methodsOf ref = (cx.methodsOf ref).map Routine.pruned := by
  rw [methodsOf, methodsOf, classOf?_pruned]
  rcases cx.classOf? ref with _ | c
  · rfl
  · change c.pruned.methodTable.values = c.methodTable.values.map Routine.pruned
    rw [c.methodTable_pruned, Table.values_map]

end Context

/-! ## Natives -/

/-- The class with nothing in the bodies of its methods. -/
def ClassDef.withoutBodies (c : ClassDef) : ClassDef :=
  { c with methods := c.methods.map fun method => { method with body := [] } }

/-- A native does not see the bodies of methods. It may see anything else of the
classes and objects it is given. -/
def Native.IgnoresBodies (n : Native) : Prop :=
  ∀ a : Arguments, n.write { a with classes := a.classes.map ClassDef.withoutBodies } = n.write a

/-- A native that looks at its arguments one by one does not see bodies. -/
theorem ignoresBodies_print : Native.print.IgnoresBodies := fun _ => rfl

/-- Without bodies there is nothing left to prune. -/
theorem ClassDef.withoutBodies_pruned (c : ClassDef) :
    c.pruned.withoutBodies = c.withoutBodies := by
  rw [withoutBodies, withoutBodies, pruned, List.map_map]
  rfl

/-- What is pruned are bodies, so a native that does not see them writes the
same. -/
theorem Native.IgnoresBodies.write_pruned {n : Native} (h : n.IgnoresBodies) (cx : Context)
    (values : List Value) (heap : Heap) :
    n.write ⟨values, cx.pruned.program.classes, heap⟩
      = n.write ⟨values, cx.program.classes, heap⟩ := by
  have hbodies : cx.pruned.program.classes.map ClassDef.withoutBodies
      = cx.program.classes.map ClassDef.withoutBodies := by
    rw [Context.pruned, Program.pruned, Table.map_map]
    exact congrArg cx.program.classes.map (funext ClassDef.withoutBodies_pruned)
  rw [← h ⟨values, cx.pruned.program.classes, heap⟩, ← h ⟨values, cx.program.classes, heap⟩]
  exact congrArg (fun classes => n.write ⟨values, classes, heap⟩) hbodies

/-! ## Environments -/

/-- The scope with its routines pruned. -/
def Scope.pruned (s : Scope) : Scope := { s with methods := s.methods.map Routine.pruned }

/-- Variables are declared alike: routines have no part in it. -/
theorem Scope.declare_pruned (s : Scope) (name : String) (value : Value) :
    s.pruned.declare name value = (s.declare name value).map Scope.pruned := by
  rw [declare, declare, apply_ite (Except.map Scope.pruned)]
  rfl

/-- A routine declared in a pruned scope is pruned itself. -/
theorem Scope.declareMethod_pruned (s : Scope) (r : Routine) :
    s.pruned.declareMethod r.pruned = (s.declareMethod r).pruned := by
  rw [declareMethod, declareMethod, pruned, pruned, Table.map_insert]
  rfl

/-- Variables are set alike. -/
theorem setFirst_pruned (name : String) (value : Value) (scopes : List Scope) :
    setFirst name value (scopes.map Scope.pruned)
      = (setFirst name value scopes).map Scope.pruned := by
  induction scopes with
  | nil => rfl
  | cons s scopes ih =>
    rw [List.map_cons, setFirst, setFirst, ih, apply_ite (List.map Scope.pruned)]
    rfl

namespace Environment

/-- The environment with its routines pruned. -/
def pruned (e : Environment) : Environment :=
  { e with inner := e.inner.map Scope.pruned, global := e.global.pruned }

variable (e : Environment) (name : String) (value : Value)

theorem lookup?_pruned : e.pruned.lookup? name = e.lookup? name := by
  rw [lookup?, lookup?, pruned, List.findSome?_map]
  rfl

/-- A routine that is looked up is pruned. That is all there is to see. -/
theorem method?_pruned : e.pruned.method? name = (e.method? name).map Routine.pruned := by
  have hget : ∀ s : Scope, s.pruned.methods.get? name = (s.methods.get? name).map Routine.pruned :=
    fun s => Table.get?_map ..
  have hinner : e.pruned.inner.findSome? (·.methods.get? name)
      = (e.inner.findSome? (·.methods.get? name)).map Routine.pruned := by
    rw [pruned, List.findSome?_map, List.map_findSome?]
    exact congrArg (e.inner.findSome? ·) (funext hget)
  rw [method?, method?, Option.map_or, hinner]
  exact congrArg _ (hget e.global)

theorem contains_pruned : e.pruned.contains name = e.contains name := by
  rw [contains, contains, pruned, List.any_map]
  rfl

theorem get_pruned : e.pruned.get name = e.get name := by
  rw [get, get, lookup?_pruned]

/-- Declaring a variable and pruning can be done in either order. -/
theorem declare_pruned :
    e.pruned.declare name value = (e.declare name value).map Environment.pruned := by
  rcases e with ⟨_ | ⟨s, rest⟩, global, natives, pendingReturn⟩
  · change (global.pruned.declare name value).map _ = ((global.declare name value).map _).map _
    rw [Scope.declare_pruned]
    cases global.declare name value <;> rfl
  · change (s.pruned.declare name value).map _ = ((s.declare name value).map _).map _
    rw [Scope.declare_pruned]
    cases s.declare name value <;> rfl

/-- So can setting a variable and pruning. -/
theorem set_pruned : e.pruned.set name value = (e.set name value).pruned := by
  have hany : e.pruned.inner.any (·.contains name) = e.inner.any (·.contains name) := by
    rw [pruned, List.any_map]
    rfl
  rw [set, set, hany, apply_ite Environment.pruned]
  congr 1
  rw [pruned, pruned, setFirst_pruned]

theorem declareMethod_pruned (r : Routine) :
    e.pruned.declareMethod r.pruned = (e.declareMethod r).pruned := by
  rcases e with ⟨_ | ⟨s, rest⟩, global, natives, pendingReturn⟩
  · exact congrArg (fun g : Scope => Environment.mk [] g natives pendingReturn)
      (global.declareMethod_pruned r)
  · exact congrArg
      (fun t : Scope =>
        Environment.mk (t :: rest.map Scope.pruned) global.pruned natives pendingReturn)
      (s.declareMethod_pruned r)

theorem defineFunction_pruned (r : Routine) :
    e.pruned.defineFunction r.pruned = (e.defineFunction r).pruned := by
  rw [defineFunction, defineFunction, pruned, Scope.declareMethod_pruned]
  rfl

theorem endBlock_pruned : e.pruned.endBlock = e.endBlock.pruned := by
  rw [endBlock, endBlock, pruned, pruned, List.map_tail]

end Environment

/-! ## States -/

namespace State

/-- The state with its routines pruned. -/
def pruned (s : State) : State := { s with environment := s.environment.pruned }

/-- No native that is known sees the bodies of methods. -/
def HidesBodies (s : State) : Prop :=
  ∀ name native, s.environment.native? name = some native → native.IgnoresBodies

/-- What leaves the natives alone hides bodies as before. -/
theorem HidesBodies.of_natives {s t : State} (h : s.HidesBodies)
    (hnatives : t.environment.natives = s.environment.natives) : t.HidesBodies := by
  intro name native hnative
  rw [Environment.native?, hnatives] at hnative
  exact h name native hnative

variable (s : State) (head : String) (path : List String)

/-- A path leads to the same value: objects hold no routines. -/
theorem member_pruned : s.pruned.member head path = s.member head path := by
  rw [member, member, pruned, Environment.get_pruned]

theorem objectAt_pruned : s.pruned.objectAt head path = s.objectAt head path := by
  rw [objectAt, objectAt, member_pruned]

theorem variableSlot_pruned (name : String) : s.pruned.variableSlot name = s.variableSlot name := by
  rw [variableSlot, variableSlot, pruned, Environment.contains_pruned]

/-- A target names the same slot. -/
theorem slot_pruned (target : Target) : s.pruned.slot target = s.slot target := by
  cases target with
  | var name => exact s.variableSlot_pruned name
  | member head path =>
    simp only [slot, objectAt_pruned, variableSlot_pruned]
    rfl

/-- Filling a slot and pruning can be done in either order. -/
theorem put_pruned (slot : Slot) (value : Value) :
    s.pruned.put slot value = (s.put slot value).pruned := by
  cases slot with
  | var name =>
    rw [put, put, pruned, pruned, Environment.set_pruned]
  | field owner name => rfl

/-- A pruned program is ready to run in the pruned state. -/
theorem ready_pruned (p : Program) (natives : List Native) :
    ready p.pruned natives = (ready p natives).pruned := by
  have hnatives : (natives.foldl Environment.defineNative {}).pruned
      = natives.foldl Environment.defineNative {} :=
    List.foldlRecOn (motive := fun e : Environment => e.pruned = e) _ _ rfl fun e he native _ => by
      change (e.pruned).defineNative native = e.defineNative native
      rw [he]
  have hfunctions : p.pruned.functions.values = p.functions.values.map Routine.pruned :=
    Table.values_map ..
  have hdefine : ∀ e : Environment,
      p.pruned.functions.values.foldl Environment.defineFunction e.pruned
        = (p.functions.values.foldl Environment.defineFunction e).pruned := by
    intro e
    rw [hfunctions, List.foldl_map]
    exact List.foldl_hom Environment.pruned fun e r => e.defineFunction_pruned r
  have hready := hdefine (natives.foldl Environment.defineNative {})
  rw [hnatives] at hready
  rw [ready, ready, pruned, hready]

end State

end ClassLang
