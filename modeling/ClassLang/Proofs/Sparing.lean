import ClassLang.Proofs.Fuel
import ClassLang.Proofs.Lasting

/-!
# Running without assigning to a name

The interpreter that spares a name has no outcome where the name would be
assigned to, by a statement or by a write-back, and the outcomes of the
interpreter otherwise (`executeSparing`). While a name is spared, what no
assignment to another name destroys lasts (`last_sparingAt`).

Of a call only the body may be asked to spare a name (`invokeBodySparing`).
-/

namespace ClassLang

open Run (Keeps)

/-! ## The interpreter -/

/-- A computation, or none if the condition holds. -/
def Run.unless {α : Type} (barred : Bool) (m : Run α) : Run α :=
  if barred then Run.outOfFuel else m

/-- Does a call write back to a variable by its bare name? -/
def Routine.writesBackTo (name : String) (routine : Routine) (arguments : List Expr) : Bool :=
  (routine.bindings arguments).any (·.target.bareName? == some name)

mutual

/-- The value of an expression, sparing a name. -/
def evaluateSparing (name : String) (cx : Context) : Nat → Expr → Run Value
  | 0, _ => Run.outOfFuel
  | fuel + 1, e => evaluateStep cx
    ⟨evaluateSparing name cx fuel, executeSparing name cx fuel, constructSparing name cx fuel,
      invokeSparing name cx fuel, .deeper cx.maxDepth⟩ e

/-- The effect of a statement, unless it assigns to the name. -/
def executeSparing (name : String) (cx : Context) : Nat → Stmt → Run Unit
  | 0, _ => Run.outOfFuel
  | fuel + 1, st => Run.unless (st.assigned? == some name) <| executeStep cx
    ⟨evaluateSparing name cx fuel, executeSparing name cx fuel, constructSparing name cx fuel,
      invokeSparing name cx fuel, .deeper cx.maxDepth⟩ st

/-- Makes an object, sparing a name. -/
def constructSparing (name : String) (cx : Context) : Nat → ClassDef → Run Ref
  | 0, _ => Run.outOfFuel
  | fuel + 1, c => constructStep cx
    ⟨evaluateSparing name cx fuel, executeSparing name cx fuel, constructSparing name cx fuel,
      invokeSparing name cx fuel, .deeper cx.maxDepth⟩ c

/-- Calls a routine, unless the call writes back to the name. -/
def invokeSparing (name : String) (cx : Context) :
    Nat → Routine → List Expr → Option Ref → Run Value
  | 0, _, _, _ => Run.outOfFuel
  | fuel + 1, routine, arguments, receiver =>
    Run.unless (routine.writesBackTo name arguments) <| invokeStep cx
      ⟨evaluateSparing name cx fuel, executeSparing name cx fuel, constructSparing name cx fuel,
        invokeSparing name cx fuel, .deeper cx.maxDepth⟩ routine arguments receiver

end

/-- What a step can call that spares a name and is left with so much fuel. -/
def sparingAt (name : String) (cx : Context) (fuel : Nat) : Calls where
  evaluate := evaluateSparing name cx fuel
  execute := executeSparing name cx fuel
  construct := constructSparing name cx fuel
  invoke := invokeSparing name cx fuel
  deeper := Run.deeper cx.maxDepth

/-- What a call can call whose body spares a name. -/
def bodySparingAt (name : String) (cx : Context) (fuel : Nat) : Calls :=
  { callsAt cx fuel with execute := executeSparing name cx fuel }

/-- Calls a routine, the body of which spares a name, and so does whatever is
called there. Arguments and write-backs of the call itself need not. -/
def invokeBodySparing (name : String) (cx : Context) :
    Nat → Routine → List Expr → Option Ref → Run Value
  | 0, _, _, _ => Run.outOfFuel
  | fuel + 1, routine, arguments, receiver =>
    invokeStep cx (bodySparingAt name cx fuel) routine arguments receiver

/-! ## What is spared -/

/-- A computation that is barred refines every other one. -/
theorem Run.Refines.unless {α : Type} {m m' : Run α} (barred : Bool) (h : m.Refines m') :
    (m.unless barred).Refines m' := by
  intro s x hm
  rw [Run.unless] at hm
  split at hm
  · cases hm
  · exact h s x hm

/-- A computation that is barred keeps everything. -/
theorem Run.Keeps.unless {α : Type} {P : State → Prop} {m : Run α} {barred : Bool}
    (h : barred = false → Keeps P m) : Keeps P (m.unless barred) := by
  rw [Run.unless]
  split
  · exact .outOfFuel
  · exact h (Bool.eq_false_iff.mpr ‹_›)

/-- What is sparing has the outcomes of what is not. -/
theorem related_sparingAt (name : String) (cx : Context) :
    ∀ fuel : Nat, (sparingAt name cx fuel).Related Run.Refines (callsAt cx fuel)
  | 0 =>
    { evaluate := fun _ _ _ h => by cases h
      execute := fun _ _ _ h => by cases h
      construct := fun _ _ _ h => by cases h
      invoke := fun _ _ _ _ _ h => by cases h
      deeper := Run.Refines.deeper }
  | fuel + 1 =>
    have ih := related_sparingAt name cx fuel
    have hR := Run.congruence_refines
    { evaluate := fun e => hR.evaluateStep ih e
      execute := fun st => (hR.executeStep ih st).unless _
      construct := fun c => hR.constructStep ih c
      invoke := fun routine arguments receiver =>
        (hR.invokeStep ih routine arguments receiver).unless _
      deeper := Run.Refines.deeper }

/-- A call whose body spares a name has the outcomes of a call. -/
theorem refines_invokeBodySparing (name : String) (cx : Context) (fuel : Nat) (routine : Routine)
    (arguments : List Expr) (receiver : Option Ref) :
    (invokeBodySparing name cx fuel routine arguments receiver).Refines
      (invoke cx fuel routine arguments receiver) := by
  cases fuel with
  | zero => exact fun _ _ h => by cases h
  | succ fuel =>
    have hcalls : (bodySparingAt name cx fuel).Related Run.Refines (callsAt cx fuel) :=
      { evaluate := fun _ _ _ h => h
        execute := (related_sparingAt name cx fuel).execute
        construct := fun _ _ _ h => h
        invoke := fun _ _ _ _ _ h => h
        deeper := Run.Refines.deeper }
    exact Run.congruence_refines.invokeStep hcalls routine arguments receiver

/-- Where a name is spared, what no assignment to another name destroys
lasts. -/
theorem last_sparingAt (name : String) (cx : Context) :
    ∀ fuel : Nat, (sparingAt name cx fuel).Last (· ≠ name)
  | 0 =>
    { evaluate := fun _ _ => .outOfFuel
      execute := fun _ _ _ => .outOfFuel
      construct := fun _ _ => .outOfFuel
      invoke := fun _ _ _ _ => .outOfFuel
      deeper := lasts_deeper }
  | fuel + 1 =>
    have ih := last_sparingAt name cx fuel
    { evaluate := fun hΨ e => keeps_evaluateStep lasts_print (ih.keep hΨ) e
      execute := fun hopen hΨ st => .unless fun hspared =>
        lasts_executeStep ih hopen hΨ fun other hother heq => by
          rw [hother, heq, beq_self_eq_true] at hspared
          cases hspared
      construct := fun hΨ c => lasts_constructStep ih hΨ c
      invoke := fun hΨ routine arguments receiver => .unless fun hspared =>
        lasts_invokeStep ih hΨ (fun b hb other hother heq => by
          have hb := List.any_eq_false.mp hspared b hb
          rw [hother, heq, beq_self_eq_true] at hb
          exact hb rfl) receiver
      deeper := lasts_deeper }

end ClassLang
