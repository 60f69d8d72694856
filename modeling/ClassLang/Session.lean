import ClassLang.Interpreter

/-!
# Sessions

A session is a program ready to run: its functions in the global scope, the
natives it is given, and nothing else. Running it calls `main` without
arguments. It can be run again in the state a run ends in.
-/

namespace ClassLang

/-- The state in which a program is ready to run. -/
def State.ready (program : Program) (natives : List Native) : State :=
  let environment := natives.foldl Environment.defineNative {}
  { environment := program.functions.values.foldl Environment.defineFunction environment }

/-- The natives of a program that is ready to run are those it was given. -/
theorem mem_of_native?_ready {p : Program} {natives : List Native} {name : String}
    {native : Native} (h : (State.ready p natives).environment.native? name = some native) :
    native ∈ natives := by
  let motive (e : Environment) : Prop := ∀ other, e.native? name = some other → other ∈ natives
  refine List.foldlRecOn (motive := motive) _ Environment.defineFunction ?_ (fun _ he _ _ => he)
    native h
  refine List.foldlRecOn (motive := motive) _ _ (fun _ hnone => by cases hnone) ?_
  intro e he item hitem other hother
  rw [Environment.native?, Environment.defineNative, Table.get?_insert] at hother
  split at hother
  · cases hother
    exact hitem
  · exact he other hother

/-- Calls the function `main`. -/
def runMain (cx : Context) (fuel : Nat) : Run Value :=
  match cx.program.functions.get? "main" with
  | some main => invoke cx fuel main [] none
  | none => Run.fail .mainNotDeclared

/-- Runs a program a number of times, each time in the state that the run
before ended in but with the output empty again. There is a result and a state
for every run, unless the fuel for one of them did not suffice. -/
def runTimes (cx : Context) (fuel : Nat) :
    Nat → State → Option (List (Except RuntimeError Value × State))
  | 0, _ => some []
  | n + 1, s =>
    match runMain cx fuel { s with output := "" } with
    | none => none
    | some (result, s) => (runTimes cx fuel n s).map ((result, s) :: ·)

/-- Fuel for a run that is to be limited by time only: more than a machine can
use up. -/
def ampleFuel : Nat := 1000000000000000000

end ClassLang
