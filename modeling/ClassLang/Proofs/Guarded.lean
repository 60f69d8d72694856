import ClassLang.Session

/-!
# The interpreter under guard

What should be true of every state and of everything that is called in the
course of a run is put as a guard (`Guard`). The guarded interpreter is the
interpreter, except that it raises an alarm where something is not as it should
be: where one of the four functions is called with something that the guard
refuses, or starts or ends in a state that it refuses.

An alarm is an error, and nothing catches errors, so an alarm ends the run.
Which error it is, is up to the guard. A run has raised none if it has the same
outcome under guard whatever the alarm is; this goes for runs without an
outcome, too.
-/

namespace ClassLang

/-- What should be true in the course of a run, and the alarm if it is not. -/
structure Guard where
  /-- of the expressions that are evaluated -/
  evaluate : Expr → Prop := fun _ => True
  /-- of the statements that are executed -/
  execute : Stmt → Prop := fun _ => True
  /-- of the routines that are called, with the arguments as they are written -/
  invoke : Routine → List Expr → Prop := fun _ _ => True
  /-- of the states -/
  state : State → Prop := fun _ => True
  /-- what is raised otherwise -/
  alarm : RuntimeError

open Classical in
/-- A computation that raises an alarm unless the condition holds and the guard
accepts the states that it starts and ends in. -/
noncomputable def Run.guarded {α : Type} (g : Guard) (condition : Prop) (m : Run α) : Run α :=
  fun s =>
    if condition ∧ g.state s then
      match m s with
      | none => none
      | some (result, t) =>
        if g.state t then some (result, t) else some (.error g.alarm, t)
    else some (.error g.alarm, s)

mutual

/-- The value of an expression, under guard. -/
noncomputable def evaluateGuarded (g : Guard) (cx : Context) : Nat → Expr → Run Value
  | 0, _ => Run.outOfFuel
  | fuel + 1, e => Run.guarded g (g.evaluate e) <| evaluateStep cx
    ⟨evaluateGuarded g cx fuel, executeGuarded g cx fuel, constructGuarded g cx fuel,
      invokeGuarded g cx fuel, .deeper cx.maxDepth⟩ e

/-- The effect of a statement, under guard. -/
noncomputable def executeGuarded (g : Guard) (cx : Context) : Nat → Stmt → Run Unit
  | 0, _ => Run.outOfFuel
  | fuel + 1, st => Run.guarded g (g.execute st) <| executeStep cx
    ⟨evaluateGuarded g cx fuel, executeGuarded g cx fuel, constructGuarded g cx fuel,
      invokeGuarded g cx fuel, .deeper cx.maxDepth⟩ st

/-- Makes an object, under guard. -/
noncomputable def constructGuarded (g : Guard) (cx : Context) : Nat → ClassDef → Run Ref
  | 0, _ => Run.outOfFuel
  | fuel + 1, c => Run.guarded g True <| constructStep cx
    ⟨evaluateGuarded g cx fuel, executeGuarded g cx fuel, constructGuarded g cx fuel,
      invokeGuarded g cx fuel, .deeper cx.maxDepth⟩ c

/-- Calls a routine, under guard. -/
noncomputable def invokeGuarded (g : Guard) (cx : Context) :
    Nat → Routine → List Expr → Option Ref → Run Value
  | 0, _, _, _ => Run.outOfFuel
  | fuel + 1, routine, arguments, receiver =>
    Run.guarded g (g.invoke routine arguments) <| invokeStep cx
      ⟨evaluateGuarded g cx fuel, executeGuarded g cx fuel, constructGuarded g cx fuel,
        invokeGuarded g cx fuel, .deeper cx.maxDepth⟩ routine arguments receiver

end

/-- What a guarded step can call that is left with so much fuel. -/
noncomputable def guardedAt (g : Guard) (cx : Context) (fuel : Nat) : Calls where
  evaluate := evaluateGuarded g cx fuel
  execute := executeGuarded g cx fuel
  construct := constructGuarded g cx fuel
  invoke := invokeGuarded g cx fuel
  deeper := Run.deeper cx.maxDepth

/-- Calls the function `main`, under guard. -/
noncomputable def runMainGuarded (g : Guard) (cx : Context) (fuel : Nat) : Run Value :=
  match cx.program.functions.get? "main" with
  | some main => invokeGuarded g cx fuel main [] none
  | none => Run.fail .mainNotDeclared

/-- Where there is nothing to raise an alarm for, none is raised. -/
theorem Run.guarded_eq {α : Type} {g : Guard} {condition : Prop} {m : Run α} {s : State}
    (hcondition : condition) (hs : g.state s)
    (hends : ∀ r t, m s = some (r, t) → g.state t) : m.guarded g condition s = m s := by
  rw [guarded, if_pos ⟨hcondition, hs⟩]
  rcases hm : m s with _ | ⟨r, t⟩
  · rfl
  · exact if_pos (hends r t hm)

end ClassLang
