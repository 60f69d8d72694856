import ClassLang.Proofs.Repeat
import ClassLang.Proofs.RoundTrip
import ClassLang.Proofs.SafeCalls

/-!
# Objects are of their classes, and only parameters hold classes

Runs leave states sound (`State.IsSound`), whatever they do and however they
end. The interpreter under observation has no outcome if a state in which one of
the four functions starts or ends is not sound, if an object has vanished or
changed its class or its fields, or if a result refers to nothing
(`evaluateObserved` and the others). It is handed the marks of the variables
that may hold a class: in the scope of a call these are the parameters. The
observation finds nothing.

The proof needs finer marks. A parameter is marked only if its argument is a
class; so what is written back to a variable at the end of a call is a class
only if the variable held one before.
-/

namespace ClassLang

/-! ## The interpreter under observation -/

/-- A computation that started in one state ended as it should in another: that
is sound, every object is still of its class and with its fields, and the result
is as wanted. -/
structure EndsSound {α : Type} (cx : Context) (κ : Marks) (post : α → Heap → Prop) (s : State)
    (r : Except RuntimeError α) (s' : State) : Prop where
  /-- the state is sound -/
  state : s'.IsSound cx κ
  /-- the objects are there -/
  heap : s.heap.Grows s'.heap
  /-- the result is as wanted -/
  result : ∀ a, r = .ok a → post a s'.heap

open Classical in
/-- A computation that has no outcome unless it starts in a sound state and
ends as it should. -/
noncomputable def Run.checked {α : Type} (cx : Context) (κ : Marks) (post : α → Heap → Prop)
    (m : Run α) : Run α := fun s =>
  if s.IsSound cx κ then
    match m s with
    | none => none
    | some (r, s') => if EndsSound cx κ post s r s' then some (r, s') else none
  else none

/-- The marks while the body of a call is run that starts in a state: in its
scope the parameters are marked, but no name of a field. -/
def Marks.call (κ : Marks) (s : State) (routine : Routine) (receiver : Option Ref) : Marks :=
  fun level name =>
    if level = s.environment.scopes.length then
      name ∈ routine.parameters.map Parameter.name ∧ name ∉ s.heap.receiverFields receiver
    else κ level name

mutual

/-- The value of an expression, observed. -/
noncomputable def evaluateObserved (cx : Context) : Marks → Nat → Expr → Run Value
  | _, 0, _ => Run.outOfFuel
  | κ, fuel + 1, e => Run.checked cx κ (fun v h => v.ExistsIn h) <| evaluateStep cx
    ⟨evaluateObserved cx κ fuel, executeObserved cx κ fuel, constructObserved cx κ fuel,
      invokeObserved cx κ fuel, .deeper cx.maxDepth⟩ e

/-- The effect of a statement, observed. -/
noncomputable def executeObserved (cx : Context) : Marks → Nat → Stmt → Run Unit
  | _, 0, _ => Run.outOfFuel
  | κ, fuel + 1, st => Run.checked cx κ (fun _ _ => True) <| executeStep cx
    ⟨evaluateObserved cx κ fuel, executeObserved cx κ fuel, constructObserved cx κ fuel,
      invokeObserved cx κ fuel, .deeper cx.maxDepth⟩ st

/-- Makes an object, observed. -/
noncomputable def constructObserved (cx : Context) : Marks → Nat → ClassDef → Run Ref
  | _, 0, _ => Run.outOfFuel
  | κ, fuel + 1, c => Run.checked cx κ (fun ref h => ref.ExistsIn h) <| constructStep cx
    ⟨evaluateObserved cx κ fuel, executeObserved cx κ fuel, constructObserved cx κ fuel,
      invokeObserved cx κ fuel, .deeper cx.maxDepth⟩ c

/-- Calls a routine, observed. Its body is run with the marks of the call. -/
noncomputable def invokeObserved (cx : Context) :
    Marks → Nat → Routine → List Expr → Option Ref → Run Value
  | _, 0, _, _, _ => Run.outOfFuel
  | κ, fuel + 1, routine, arguments, receiver => fun s =>
    Run.checked cx κ (fun v h => v.ExistsIn h) (invokeStep cx
      ⟨evaluateObserved cx κ fuel, executeObserved cx (κ.call s routine receiver) fuel,
        constructObserved cx κ fuel, invokeObserved cx κ fuel, .deeper cx.maxDepth⟩
      routine arguments receiver) s

end

/-- What an observed step can call that is left with so much fuel. -/
noncomputable def observedAt (cx : Context) (κ : Marks) (fuel : Nat) : Calls where
  evaluate := evaluateObserved cx κ fuel
  execute := executeObserved cx κ fuel
  construct := constructObserved cx κ fuel
  invoke := invokeObserved cx κ fuel
  deeper := Run.deeper cx.maxDepth

/-- Observation of what is safe finds nothing. -/
theorem Run.Safe.checked {α : Type} {cx : Context} {κ κ' : Marks} {Ψ : List (Scope → Prop)}
    {h : Heap} {post post' : α → Heap → Prop} {m m' : Run α}
    (hκ : ∀ level name, κ level name → κ' level name) (hpost : ∀ a h', post a h' → post' a h')
    (hm : Safe cx κ Ψ h post m m') : Safe cx κ Ψ h post m (m'.checked cx κ' post') := by
  intro s hs hfits
  obtain ⟨heq, hends⟩ := hm hs hfits
  refine ⟨?_, hends⟩
  rw [Run.checked, if_pos (hs.mono hκ), heq]
  rcases hms : m s with _ | ⟨r, s'⟩
  · rfl
  · obtain ⟨hs', hfits', hresult⟩ := hends r s' hms
    exact if_pos ⟨hs'.mono hκ, hfits'.heap, fun a ha => hpost a _ (hresult a ha)⟩

/-! ## Observation finds nothing -/

open Run (Safe)

section

variable {cx : Context} {κ κ' : Marks} {ν : List (List String)} {h : Heap} {s : State}

/-- A parameter that a class is passed for is a parameter. -/
theorem call_of_passing (hκ : ∀ level name, κ level name → κ' level name)
    (hfits : s.Fits h (named ν)) {receiver : Option Ref}
    (hreceiver : ∀ ref, receiver = some ref → ref.ExistsIn h) (routine : Routine)
    (values : List Value) (level : Nat) (name : String)
    (hmarked : κ.passing ν.length routine values (h.receiverFields receiver) level name) :
    κ'.call s routine receiver level name := by
  have hlength : s.environment.scopes.length = ν.length := by
    rw [← fit_named_iff.mp hfits.scopes, namesOf, List.length_map]
  rw [Marks.call, hlength, hfits.heap.receiverFields_eq hreceiver]
  rw [Marks.passing] at hmarked
  split
  · next hlevel =>
    rw [if_pos hlevel] at hmarked
    obtain ⟨⟨v, hv, -⟩, hfield⟩ := hmarked
    exact ⟨(List.of_mem_zip hv).1, hfield⟩
  · next hlevel =>
    rw [if_neg hlevel] at hmarked
    exact hκ level name hmarked

/-- With any marks, and observed with the same marks or more, all that can be
called is safe. -/
theorem safe_callsAt (hnames : cx.program.NamesClasses) :
    ∀ (fuel : Nat) {κ κ' : Marks}, (∀ level name, κ level name → κ' level name) →
      (callsAt cx fuel).Safe cx κ (observedAt cx κ' fuel)
  | 0, _, _, _ =>
    { evaluate := fun _ _ _ => .outOfFuel
      execute := fun _ _ _ _ => .outOfFuel
      construct := fun _ _ _ _ => .outOfFuel
      invoke := fun _ _ _ _ _ _ => .outOfFuel
      deeper := .deeper }
  | fuel + 1, κ, κ', hκ =>
    have ih := safe_callsAt hnames fuel hκ
    { evaluate := fun _ _ e => (safe_evaluateStep ih e).checked hκ fun _ _ hv => hv.1
      execute := fun _ _ _ st => (safe_executeStep hnames ih st).checked hκ fun _ _ => id
      construct := fun _ _ _ hc => (safe_constructStep hnames ih hc).checked hκ fun _ _ => id
      invoke := fun ν h routine arguments receiver hreceiver s hs hfits => by
        -- The body is observed with marks that depend on the state.
        have hexecute : ∀ values N h' st, Safe cx
            (κ.passing ν.length routine values (h.receiverFields receiver))
            (Scope.Has N :: named ν) h' (fun _ _ => True) (execute cx fuel st)
            (executeObserved cx (κ'.call s routine receiver) fuel st) :=
          fun values N h' st => (safe_callsAt hnames fuel
            (call_of_passing hκ hfits hreceiver routine values)).execute N ν h' st
        have hstep := safe_invokeStep ih hreceiver arguments hexecute
        exact hstep.checked hκ (fun _ _ => id) hs hfits
      deeper := .deeper }

end

/-! ## Whole runs -/

/-- Parsed programs find classes by their own names. -/
theorem namesClasses_of_parseProgram {tokens : List Token} {p : Program}
    (hp : parseProgram tokens = .ok p) : p.NamesClasses := by
  obtain ⟨_, _, -, -, hprogram⟩ := isProgram_of_parseProgram hp
  obtain @⟨_, _, classes, -, -, hclasses⟩ := hprogram
  intro name c hc
  have hpairwise : (classes.map fun c => (c.name, c)).Pairwise fun a b => a.1 ≠ b.1 :=
    List.pairwise_map.mpr (List.pairwise_map.mp hclasses)
  change (Table.ofList _).get? name = some c at hc
  rw [Table.get?_ofList hpairwise] at hc
  obtain ⟨_, -, heq⟩ := List.mem_map.mp (Table.mem_of_find?_eq_some hc)
  cases heq
  rfl

/-- A program that is ready to run has no objects and no variables. -/
theorem isSound_ready (p : Program) (natives : List Native) (limit : Nat) :
    (State.ready p natives).IsSound ⟨p, limit⟩ .none := by
  have hbare := isBare_ready p natives
  refine ⟨.empty _, ?_, fun v hv => ?_⟩
  · rw [Environment.scopes, hbare.inner]
    refine ⟨fun name v hv => ?_, trivial⟩
    rw [hbare.vars] at hv
    cases hv
  · rw [hbare.pendingReturn] at hv
    cases hv

/-- Started in the state, a computation and its observation have the same
outcome, and if they end they end as they should. -/
structure IsObserved {α : Type} (cx : Context) (κ : Marks) (post : α → Heap → Prop)
    (m observed : Run α) (s : State) : Prop where
  /-- the same outcome -/
  same : observed s = m s
  /-- as it should be -/
  ends : ∀ r s', m s = some (r, s') → EndsSound cx κ post s r s'

/-- A safe computation is the same when it is observed, and ends as it should. -/
theorem Run.Safe.isObserved {α : Type} {cx : Context} {κ : Marks} {Ψ : List (Scope → Prop)}
    {post post' : α → Heap → Prop} {m observed : Run α} {s : State}
    (hm : Safe cx κ Ψ s.heap post m observed) (hpost : ∀ a h, post a h → post' a h)
    (hs : s.IsSound cx κ) (hfits : s.Fits s.heap Ψ) : IsObserved cx κ post' m observed s := by
  obtain ⟨heq, hends⟩ := hm hs hfits
  refine ⟨heq, fun r s' hrun => ?_⟩
  obtain ⟨hs', hfits', hresult⟩ := hends r s' hrun
  exact ⟨hs', hfits'.heap, fun a ha => hpost a _ (hresult a ha)⟩

/-- Started in the state, each of the four functions that run a program has the
outcome that it has under observation, and ends as it should. -/
structure RunsSoundly (cx : Context) (κ : Marks) (fuel : Nat) (s : State) : Prop where
  /-- evaluation -/
  evaluate : ∀ e, IsObserved cx κ (fun v h => v.ExistsIn h) (evaluate cx fuel e)
    (evaluateObserved cx κ fuel e) s
  /-- execution -/
  execute : ∀ st, IsObserved cx κ (fun _ _ => True) (execute cx fuel st)
    (executeObserved cx κ fuel st) s
  /-- making an object of a class of the program -/
  construct : ∀ name c, cx.program.classes.get? name = some c →
    IsObserved cx κ (fun ref h => ref.ExistsIn h) (construct cx fuel c)
      (constructObserved cx κ fuel c) s
  /-- calling a routine, on an object that is there -/
  invoke : ∀ routine arguments receiver, (∀ ref, receiver = some ref → ref.ExistsIn s.heap) →
    IsObserved cx κ (fun v h => v.ExistsIn h) (invoke cx fuel routine arguments receiver)
      (invokeObserved cx κ fuel routine arguments receiver) s

/-- From any sound state, with any marks, all functions run soundly. -/
theorem runsSoundly {cx : Context} (hnames : cx.program.NamesClasses) {κ : Marks} (fuel : Nat)
    {s : State} (hs : s.IsSound cx κ) : RunsSoundly cx κ fuel s := by
  have hsafe := safe_callsAt hnames fuel (κ := κ) fun _ _ => id
  let ν := namesOf s.environment.scopes
  have hfits : s.Fits s.heap (named ν) := ⟨.refl s.heap, fit_named_iff.mpr rfl⟩
  refine ⟨fun e => ?_, fun st => ?_, fun name c hc => ?_,
    fun routine arguments receiver hreceiver => ?_⟩
  · exact (hsafe.evaluate ν s.heap e).isObserved (fun _ _ hv => hv.1) hs hfits
  · obtain ⟨ψ, Ψ, hcons⟩ := hfits.exists_cons
    obtain ⟨top, rest, hν, -⟩ := List.map_eq_cons_iff.mp hcons
    have hhas : s.Fits s.heap (Scope.Has [] :: named rest) :=
      fits_has_iff.mpr ⟨top, fun _ hname => (by cases hname), hν ▸ hfits⟩
    exact (hsafe.execute [] rest s.heap st).isObserved (fun _ _ => id) hs hhas
  · rw [← hnames name c hc] at hc
    exact (hsafe.construct ν s.heap c hc).isObserved (fun _ _ => id) hs hfits
  · exact (hsafe.invoke ν s.heap routine arguments receiver hreceiver).isObserved (fun _ _ => id)
      hs hfits

/-- **Objects are what their classes say, and only parameters hold classes.** A
parsed program that is ready to run is in a sound state, in which no variable is
marked. From a sound state on, with any marks, each of the four functions ends
in a sound state, if it ends, whether with a value or with an error. No object
has vanished or changed its class or fields, and the result leads to an object
that is there if it leads to one. The same is true of every evaluation,
statement, construction and call in between, since none of them stops the
interpreter under observation. A run is a call of `main`; so a program that is
run again starts in a sound state, too. -/
theorem objects_represented {tokens : List Token} {p : Program} (hp : parseProgram tokens = .ok p)
    (limit : Nat) (natives : List Native) :
    (State.ready p natives).IsSound ⟨p, limit⟩ .none ∧
    ∀ (κ : Marks) (fuel : Nat) (s : State), s.IsSound ⟨p, limit⟩ κ →
      RunsSoundly ⟨p, limit⟩ κ fuel s ∧
      ∀ r s', runMain ⟨p, limit⟩ fuel s = some (r, s') →
        EndsSound ⟨p, limit⟩ κ (fun v h => v.ExistsIn h) s r s' := by
  refine ⟨isSound_ready p natives limit, fun κ fuel s hs => ?_⟩
  have hruns : RunsSoundly ⟨p, limit⟩ κ fuel s :=
    runsSoundly (namesClasses_of_parseProgram hp) fuel hs
  refine ⟨hruns, fun r s' hrun => ?_⟩
  rcases hmain : p.functions.get? "main" with _ | main <;> simp only [runMain, hmain] at hrun
  · cases hrun
    exact ⟨hs, .refl s.heap, fun _ hok => by cases hok⟩
  · exact (hruns.invoke main [] none fun _ hnone => by cases hnone).ends r s' hrun

/-- A program in which a class is passed for a parameter by reference, from
there for another, and back. -/
def passesClass : Program where
  functions := .ofList [
    ("main", { returns := .cls "C", name := "main", parameters := [], body := [
      .call (.call (.var "outer") [.var "C"]),
      .declare { type := .cls "C", name := "c", initial := some (.var "C") },
      .ret (.var "c")] }),
    ("outer", {
      returns := .void, name := "outer"
      parameters := [{ type := .cls "C", name := "given", byReference := true }]
      body := [.call (.call (.var "inner") [.var "given"])] }),
    ("inner", {
      returns := .void, name := "inner"
      parameters := [{ type := .cls "C", name := "handed", byReference := true }]
      body := [] })]
  classes := .ofList [("C", {
    name := "C"
    fields := [{ type := .integer, name := "f", initial := none }]
    methods := [] })]

/-- The tokens of the program, somewhere. -/
def passesClassTokens : List Token :=
  (passesClass.kinds ++ [Kind.stop]).map fun kind => { kind, lexeme := "", start := {}, stop := {} }

/-- A run in which a parameter holds a class. -/
theorem objects_represented_passesClass :
    parseProgram passesClassTokens = .ok passesClass ∧
    (State.ready passesClass []).IsSound ⟨passesClass, 9⟩ .none ∧
    ∃ v s, runMain ⟨passesClass, 9⟩ 9 (.ready passesClass []) = some (.ok v, s) ∧
      v.text = "C instance" ∧ s.IsSound ⟨passesClass, 9⟩ .none ∧ v.ExistsIn s.heap := by
  have hparse : parseProgram passesClassTokens = .ok passesClass := by
    obtain ⟨rest, hreads, hstop⟩ := textKinds_eq_iff.mp
      (show textKinds passesClassTokens = passesClass.kinds by decide)
    exact parseProgram_of_isProgram (passesClass.isProgram_kinds (by decide)) hreads hstop
  obtain ⟨hready, hruns⟩ := objects_represented hparse 9 []
  have htext : ((runMain ⟨passesClass, 9⟩ 9 (.ready passesClass [])).bind (·.1.toOption)).map
      Value.text = some "C instance" := by decide +kernel
  obtain ⟨v, hv, htext⟩ := Option.map_eq_some_iff.mp htext
  obtain ⟨⟨_ | v, s⟩, hrun, hok⟩ := Option.bind_eq_some_iff.mp hv <;> cases hok
  have hends := (hruns .none 9 _ hready).2 _ s hrun
  exact ⟨hparse, hready, v, s, hrun, htext, hends.state, hends.result v rfl⟩

end ClassLang
