import ClassLang.Proofs.Fuel
import ClassLang.Proofs.Pruned
import ClassLang.Proofs.Shape

/-!
# Statements behind a return are dead

A statement that returns on every path through it leaves the result of a
`return` behind, whenever it ends without an error (`Run.Returns`), and then
what stands behind it is not executed. So the program without such statements
does the same, one step after the other: from a pruned state it ends in the same
result and in a pruned state (`Run.Follows`), with the same fuel.

One thing sees what is pruned: a native is given the classes of the program, and
may write the bodies of their methods out. So the natives that can be called have
to ignore bodies (`State.HidesBodies`), and a native that does not tells the two
programs apart (`dead_code_shows_in_bodies`).

As in other comparisons of two interpreters there is a lemma for each step. Two
of them look at pruned trees: the one about a list of statements, where the dead
ones are dropped, and the one about calls, where a pruned routine was looked up.
-/

namespace ClassLang

namespace Run

variable {α β γ : Type}

/-! ## Statements that return -/

/-- Without an error, a computation ends with a `return` on its way out. -/
def Returns (m : Run Unit) : Prop :=
  ∀ ⦃s t⦄, m s = some (.ok (), t) → t.environment.isReturning = true

/-- A block returns if its body does. -/
theorem Returns.inBlock {m : Run Unit} (h : m.Returns) : (Run.inBlock m).Returns := by
  intro s t hrun
  rw [Run.inBlock] at hrun
  split at hrun
  · cases hrun
  · next hbody =>
    cases hrun
    have hreturning := h hbody
    exact hreturning

/-! ## Computations on pruned states -/

/-- From a state that hides bodies, the first computation runs as the second one
does from the pruned state. Neither ends, or both do, with the same result. The
state that the second one ends in is the pruned one of the first, which hides
bodies again. -/
def Follows (m m' : Run α) : Prop :=
  ∀ ⦃s : State⦄, s.HidesBodies →
    (m s = none ∧ m' s.pruned = none) ∨
      ∃ r t, m s = some (r, t) ∧ m' s.pruned = some (r, t.pruned) ∧ t.HidesBodies

namespace Follows

variable {m m' : Run α}

/-- What the second computation does is known from the first. -/
theorem run_pruned {s : State} (hm : Follows m m') (hs : s.HidesBodies) :
    m' s.pruned = (m s).map (Prod.map id State.pruned) := by
  rcases hm hs with ⟨hrun, hrun'⟩ | ⟨r, t, hrun, hrun', -⟩
  · rw [hrun, hrun', Option.map_none]
  · rw [hrun, hrun', Option.map_some, Prod.map_apply, id]

/-- What follows in both parts follows as a whole. -/
theorem bind {f f' : α → Run β} (hm : Follows m m') (hf : ∀ a, Follows (f a) (f' a)) :
    Follows (m >>= f) (m' >>= f') := by
  intro s hs
  rcases hm hs with ⟨hnone, hnone'⟩ | ⟨e | a, t, hrun, hrun', ht⟩
  · exact .inl ⟨bind_of_none hnone, bind_of_none hnone'⟩
  · exact .inr ⟨.error e, t, bind_of_error hrun, bind_of_error hrun', ht⟩
  · rw [bind_of_ok hrun, bind_of_ok hrun']
    exact hf a ht

/-- What is looked up may differ, as long as the same way of changing it does
for all states. -/
theorem tryReads_bind {g : α → β} {look : State → Except RuntimeError α}
    {look' : State → Except RuntimeError β} {f : α → Run γ} {f' : β → Run γ}
    (hlook : ∀ s : State, look' s.pruned = (look s).map g) (hf : ∀ a, Follows (f a) (f' (g a))) :
    Follows (Run.tryReads look >>= f) (Run.tryReads look' >>= f') := by
  intro s hs
  have hrun : Run.tryReads look s = some (look s, s) := rfl
  have hrun' : Run.tryReads look' s.pruned = some ((look s).map g, s.pruned) := by
    rw [← hlook]
    rfl
  rcases hresult : look s with e | a <;> rw [hresult] at hrun hrun'
  · exact .inr ⟨.error e, s, bind_of_error hrun, bind_of_error hrun', hs⟩
  · rw [bind_of_ok hrun, bind_of_ok hrun']
    exact hf a hs

/-- The same for look-ups that cannot fail. -/
theorem reads_bind {g : α → β} {look : State → α} {look' : State → β} {f : α → Run γ}
    {f' : β → Run γ} (hlook : ∀ s : State, look' s.pruned = g (look s))
    (hf : ∀ a, Follows (f a) (f' (g a))) :
    Follows (Run.reads look >>= f) (Run.reads look' >>= f') :=
  tryReads_bind (fun s => congrArg Except.ok (hlook s)) hf

/-- A native that is found does not see bodies. -/
theorem native_bind {name : String} {f f' : Option Native → Run α}
    (hnone : Follows (f none) (f' none))
    (hsome : ∀ native : Native, native.IgnoresBodies →
      Follows (f (some native)) (f' (some native))) :
    Follows (Run.reads (·.environment.native? name) >>= f)
      (Run.reads (·.environment.native? name) >>= f') := by
  intro s hs
  have hread : (Run.reads (·.environment.native? name) >>= f) s
      = f (s.environment.native? name) s := rfl
  have hread' : (Run.reads (·.environment.native? name) >>= f') s.pruned
      = f' (s.environment.native? name) s.pruned := rfl
  rw [hread, hread']
  rcases hnative : s.environment.native? name with _ | native
  · exact hnone hs
  · exact hsome native (hs name native hnative) hs

/-- A look-up that pruning does not reach finds the same. -/
theorem tryReads {look look' : State → Except RuntimeError α}
    (h : ∀ s : State, look' s.pruned = look s) :
    Follows (Run.tryReads look) (Run.tryReads look') :=
  fun s hs => .inr ⟨look s, s, rfl, congrArg (fun r => some (r, s.pruned)) (h s), hs⟩

/-- A check does not look at the state. -/
theorem ofExcept (x : Except RuntimeError α) : Follows (Run.ofExcept x) (Run.ofExcept x) :=
  tryReads fun _ => rfl

theorem pure (a : α) : Follows (Pure.pure a : Run α) (Pure.pure a) := ofExcept (.ok a)

theorem fail (e : RuntimeError) : Follows (Run.fail e : Run α) (Run.fail e) := ofExcept (.error e)

theorem outOfFuel : Follows (Run.outOfFuel : Run α) Run.outOfFuel := fun _ _ => .inl ⟨rfl, rfl⟩

/-- A change may depend on anything that pruning leaves alone. It does not reach
the natives. -/
theorem tryModify {f f' : State → Except RuntimeError State}
    (h : ∀ s : State, f' s.pruned = (f s).map State.pruned)
    (hnatives : ∀ s t, f s = .ok t → t.environment.natives = s.environment.natives) :
    Follows (Run.tryModify f) (Run.tryModify f') := by
  intro s hs
  rw [Run.tryModify, Run.tryModify, h]
  rcases hresult : f s with e | t
  · exact .inr ⟨.error e, s, rfl, rfl, hs⟩
  · exact .inr ⟨.ok (), t, rfl, rfl, hs.of_natives (hnatives s t hresult)⟩

/-- A change follows if pruning can be done before or behind it. -/
theorem modify {f f' : State → State} (h : ∀ s : State, f' s.pruned = (f s).pruned)
    (hnatives : ∀ s, (f s).environment.natives = s.environment.natives) :
    Follows (Run.modify f) (Run.modify f') :=
  fun s hs => .inr ⟨.ok (), f s, rfl, congrArg (fun t => some (Except.ok (), t)) (h s),
    hs.of_natives (hnatives s)⟩

/-- What is opened and closed around a computation leaves the natives alone. -/
theorem around {opening closing : State → State} {wrap : α → State → β}
    (hopening : ∀ s : State, opening s.pruned = (opening s).pruned ∧
      (opening s).environment.natives = s.environment.natives)
    (hclosing : ∀ s : State, closing s.pruned = (closing s).pruned ∧
      (closing s).environment.natives = s.environment.natives)
    (hwrap : ∀ a (s : State), wrap a s.pruned = wrap a s) (hm : Follows m m') :
    Follows (Run.around opening closing wrap m) (Run.around opening closing wrap m') := by
  intro s hs
  rcases hm (hs.of_natives (hopening s).2) with ⟨hbody, hbody'⟩ | ⟨r, t, hbody, hbody', ht⟩ <;>
    rw [← (hopening s).1] at hbody'
  · exact .inl ⟨around_of_none hbody, around_of_none hbody'⟩
  · refine .inr ⟨_, _, around_of_some hbody, ?_, ht.of_natives (hclosing t).2⟩
    rw [around_of_some hbody', (hclosing t).1]
    simp only [hwrap]

/-- A scope is opened and closed in both states. -/
theorem inBlock (hm : Follows m m') : Follows (Run.inBlock m) (Run.inBlock m') := by
  rw [inBlock_eq_around, inBlock_eq_around]
  refine hm.around (fun _ => ⟨rfl, rfl⟩) (fun s => ⟨?_, rfl⟩) fun _ _ => rfl
  exact congrArg (fun environment => { s with environment }) s.environment.endBlock_pruned

/-- So is the scope of a call. -/
theorem inCall (hm : Follows m m') : Follows (Run.inCall m) (Run.inCall m') := by
  rw [inCall_eq_around, inCall_eq_around]
  refine hm.around (fun _ => ⟨rfl, rfl⟩) (fun s => ⟨?_, rfl⟩) fun _ _ => rfl
  exact congrArg (fun e : Environment => { s with environment := { e with pendingReturn := none } })
    s.environment.endBlock_pruned

/-- The depth is the same in both states, and so is what it allows. -/
theorem deeper {limit : Nat} (hm : Follows m m') :
    Follows (Run.deeper limit m) (Run.deeper limit m') := by
  intro s hs
  have hdepth : s.pruned.depth = s.depth := rfl
  rcases Nat.lt_or_ge s.depth limit with hlt | hle
  · rw [deeper_of_lt m hlt, deeper_of_lt m' (hdepth ▸ hlt)]
    refine around ?_ ?_ ?_ hm hs
    · exact fun _ => ⟨rfl, rfl⟩
    · exact fun _ => ⟨rfl, rfl⟩
    · exact fun _ _ => rfl
  · exact .inr ⟨_, s, deeper_of_le m hle, deeper_of_le m' (hdepth ▸ hle), hs⟩

/-! ## Declaring and writing -/

/-- A declaration fails in both states or in neither. -/
theorem declare (name : String) (value : Value) :
    Follows (Run.declare name value) (Run.declare name value) := by
  refine .tryModify (fun s => ?_) fun s t ht => ?_
  · rw [State.pruned, Environment.declare_pruned]
    cases s.environment.declare name value <;> rfl
  · rcases hdeclare : s.environment.declare name value with e | environment <;>
      rw [hdeclare] at ht <;> cases ht
    exact (Environment.declare_eq_ok hdeclare).1

theorem declareAll : ∀ entries : List (String × Value),
    Follows (Run.declareAll entries) (Run.declareAll entries)
  | [] => .pure _
  | (name, value) :: rest => .bind (.declare name value) fun _ => declareAll rest

/-- Routines declared in the pruned state are the pruned ones. -/
theorem declareMethods (routines : List Routine) :
    Follows (Run.declareMethods routines) (Run.declareMethods (routines.map Routine.pruned)) := by
  refine .modify (fun s => congrArg (fun environment => { s with environment }) ?_) fun s => ?_
  · rw [List.foldl_map]
    exact List.foldl_hom Environment.pruned fun e r => e.declareMethod_pruned r
  · refine List.foldlRecOn (motive := fun e => e.natives = s.environment.natives) routines
      Environment.declareMethod rfl fun e he routine _ => ?_
    rw [← he, Environment.declareMethod]
    split <;> rfl

theorem valuesOf : ∀ names : List String, Follows (Run.valuesOf names) (Run.valuesOf names)
  | [] => .pure _
  | name :: rest =>
    .bind (.tryReads fun s => s.environment.get_pruned name) fun _ =>
      .bind (valuesOf rest) fun _ => .pure _

/-- A target names the same slot in both states. -/
theorem write (target : Target) (value : Value) :
    Follows (Run.write target value) (Run.write target value) :=
  .bind (.tryReads fun s => s.slot_pruned target) fun slot =>
    .modify (fun s => s.put_pruned slot value) fun s =>
      congrArg Shape.natives (s.shape_put slot value)

end Follows

end Run

open Run (Follows)

/-- Whatever can be called does the same for pruned trees in pruned states, and
statements that return on every path do return. -/
structure Calls.Follow (calls calls' : Calls) : Prop where
  /-- evaluation -/
  evaluate : ∀ e, Follows (calls.evaluate e) (calls'.evaluate e)
  /-- execution -/
  execute : ∀ st, Follows (calls.execute st) (calls'.execute st.pruned)
  /-- what is left behind by a statement that returns -/
  returns : ∀ st, st.definitelyReturns = true → (calls.execute st).Returns
  /-- making an object -/
  construct : ∀ c, Follows (calls.construct c) (calls'.construct c.pruned)
  /-- calling a routine -/
  invoke : ∀ routine arguments receiver,
    Follows (calls.invoke routine arguments receiver)
      (calls'.invoke routine.pruned arguments receiver)
  /-- going one level deeper -/
  deeper : ∀ {α : Type} {m m' : Run α}, Follows m m' → Follows (calls.deeper m) (calls'.deeper m')

variable {cx : Context}

/-! ## Values -/

section

variable {evaluate evaluate' : Expr → Run Value} {construct construct' : ClassDef → Run Ref}
  {invoke invoke' : Routine → List Expr → Option Ref → Run Value}

/-- Expressions are the same in the pruned program, and have the same values. -/
theorem follows_evaluateAll (h : ∀ e, Follows (evaluate e) (evaluate' e)) :
    ∀ es : List Expr, Follows (evaluateAll evaluate es) (evaluateAll evaluate' es)
  | [] => .pure _
  | e :: rest => .bind (h e) fun _ => .bind (follows_evaluateAll h rest) fun _ => .pure _

/-- An object of the pruned class has the same fields. -/
theorem follows_constructNamed (h : ∀ c, Follows (construct c) (construct' c.pruned))
    (name : String) :
    Follows (constructNamed cx construct name) (constructNamed cx.pruned construct' name) :=
  .tryReads_bind (fun _ => cx.classNamed_pruned name) fun c => .bind (h c) fun _ => .pure _

/-- What a declaration starts out with is an expression, and those stay. -/
theorem follows_initialValue (hevaluate : ∀ e, Follows (evaluate e) (evaluate' e))
    (hconstruct : ∀ c, Follows (construct c) (construct' c.pruned)) (d : Declaration) :
    Follows (initialValue cx evaluate construct d)
      (initialValue cx.pruned evaluate' construct' d) := by
  have hnamed : ∀ name, Follows (constructNamed cx construct name)
      (constructNamed cx.pruned construct' name) :=
    follows_constructNamed hconstruct
  have hcheck : ∀ value : Value, Follows
      (if value.type = d.type then pure value
        else Run.fail (.invalidInitialisation d.name d.type value.type))
      (if value.type = d.type then pure value
        else Run.fail (.invalidInitialisation d.name d.type value.type)) := by
    intro value
    split
    · exact .pure _
    · exact .fail _
  rw [initialValue, initialValue]
  rcases d.initial with _ | e
  · cases d.type with
    | cls name => exact hnamed name
    | _ => exact .pure _
  · refine .bind (hevaluate e) fun value => ?_
    cases value with
    | cls name => exact .bind (hnamed name) hcheck
    | _ => exact .bind (.pure _) hcheck

theorem follows_memberValues {initialValue initialValue' : Declaration → Run Value}
    (h : ∀ d, Follows (initialValue d) (initialValue' d)) :
    ∀ (ds : List Declaration) (fields : Table Value),
      Follows (memberValues initialValue fields ds) (memberValues initialValue' fields ds)
  | [], _ => .pure _
  | d :: rest, _ =>
    .bind (h d) fun value => .bind (.declare d.name value) fun _ => follows_memberValues h rest _

/-! ## Calls -/

/-- A native that does not see bodies is given pruned classes and writes the
same. -/
theorem follows_callNative (hevaluate : ∀ e, Follows (evaluate e) (evaluate' e))
    {native : Native} (hnative : native.IgnoresBodies) (arguments : List Expr) :
    Follows (callNative cx evaluate native arguments)
      (callNative cx.pruned evaluate' native arguments) := by
  refine .bind (follows_evaluateAll hevaluate arguments) fun values =>
    .reads_bind (g := id) (fun _ => rfl) fun heap => ?_
  dsimp only [id]
  rw [hnative.write_pruned cx values heap]
  exact .bind (.modify (fun _ => rfl) fun _ => rfl) fun _ => .pure _

/-- A call by a name without dots finds the pruned routine. -/
theorem follows_callFunction (hevaluate : ∀ e, Follows (evaluate e) (evaluate' e))
    (hinvoke : ∀ routine arguments receiver,
      Follows (invoke routine arguments receiver) (invoke' routine.pruned arguments receiver))
    (name : String) (arguments : List Expr) :
    Follows (callFunction cx evaluate invoke name arguments)
      (callFunction cx.pruned evaluate' invoke' name arguments) := by
  rw [callFunction, callFunction, cx.contains_classes_pruned]
  split
  · split
    · exact .pure _
    · exact .fail _
  · refine .reads_bind (fun s => s.environment.method?_pruned name) fun routine => ?_
    rcases routine with _ | routine
    · exact .native_bind (.fail _) fun native hnative =>
        follows_callNative hevaluate hnative arguments
    · exact hinvoke routine arguments none

/-- A call by a dotted name finds the pruned method. -/
theorem follows_callMember (hevaluate : ∀ e, Follows (evaluate e) (evaluate' e))
    (hinvoke : ∀ routine arguments receiver,
      Follows (invoke routine arguments receiver) (invoke' routine.pruned arguments receiver))
    (head : String) (path : List String) (arguments : List Expr) :
    Follows (callMember cx evaluate invoke head path arguments)
      (callMember cx.pruned evaluate' invoke' head path arguments) := by
  refine .native_bind ?_ fun native hnative => follows_callNative hevaluate hnative arguments
  refine .reads_bind (g := id) (fun s => s.environment.lookup?_pruned head) fun value => ?_
  dsimp only [id]
  split
  · refine .bind (.tryReads fun s => s.objectAt_pruned head path.dropLast) fun receiver => ?_
    rw [cx.methodOf?_pruned]
    rcases cx.methodOf? receiver _ with _ | method
    · exact .fail _
    · exact hinvoke method arguments _
  · exact .fail _

end

/-! ## The steps -/

variable {calls calls' : Calls}

/-- One step of evaluation. -/
theorem follows_evaluateStep (h : calls.Follow calls') :
    ∀ e : Expr, Follows (evaluateStep cx calls e) (evaluateStep cx.pruned calls' e)
  | .integer _ | .decimal _ _ _ | .string _ | .boolean _ => .pure _
  | .var name => by
    refine .reads_bind (g := id) (fun s => s.environment.lookup?_pruned name) fun value => ?_
    rcases value with _ | value
    · dsimp only [id]
      rw [cx.contains_classes_pruned]
      split
      · exact .pure _
      · exact .fail _
    · exact .pure _
  | .member head path => .tryReads fun s => s.member_pruned head path
  | .not operand => .bind (h.evaluate operand) fun _ => .pure _
  | .logic .or left right => by
    refine .bind (h.evaluate left) fun l => ?_
    split
    · exact .pure _
    · exact .bind (h.evaluate right) fun _ => .pure _
  | .logic .and left right =>
    .bind (h.evaluate left) fun _ => .bind (h.evaluate right) fun _ => .pure _
  | .binary op left right =>
    .bind (h.evaluate left) fun _ => .bind (h.evaluate right) fun _ =>
      .bind (.ofExcept _) fun _ => .ofExcept _
  | .relation op _ left right =>
    .bind (h.evaluate left) fun _ => .bind (h.evaluate right) fun _ =>
      .bind (.ofExcept _) fun _ => .ofExcept _
  | .call (.var name) arguments => follows_callFunction h.evaluate h.invoke name arguments
  | .call (.member head path) arguments =>
    follows_callMember h.evaluate h.invoke head path arguments
  | .methodCall head path arguments => follows_callMember h.evaluate h.invoke head path arguments

/-- Behind a statement, both stop for a `return` or both go on. -/
theorem follows_unlessReturning {m m' : Run Unit} (h : Follows m m') :
    Follows (do if ← Run.isReturning then return () else m)
      (do if ← Run.isReturning then return () else m') := by
  refine .reads_bind (g := id) (fun _ => rfl) fun returning => ?_
  cases returning with
  | false => exact h
  | true => exact .pure _

/-- Behind a computation that returns, anything may stand: it is not run. -/
theorem follows_returns {m m' n n' : Run Unit} (h : Follows m m') (hreturns : m.Returns) :
    Follows (do m; if ← Run.isReturning then return () else n)
      (do m'; if ← Run.isReturning then return () else n') := by
  intro s hs
  rcases h hs with ⟨hm, hm'⟩ | ⟨e | _, t, hm, hm', ht⟩
  · exact .inl ⟨Run.bind_of_none hm, Run.bind_of_none hm'⟩
  · exact .inr ⟨.error e, t, Run.bind_of_error hm, Run.bind_of_error hm', ht⟩
  · have hreturning := hreturns hm
    have hread : Run.isReturning t = some (.ok true, t) := by rw [← hreturning]; rfl
    have hread' : Run.isReturning t.pruned = some (.ok true, t.pruned) := by
      rw [← hreturning]
      rfl
    rw [Run.bind_of_ok hm, Run.bind_of_ok hm', Run.bind_of_ok hread, Run.bind_of_ok hread']
    exact .inr ⟨.ok (), t, rfl, rfl, ht⟩

/-- **Behind a statement that returns, nothing is executed**: the other
statements may be dropped. -/
theorem follows_executeAll (h : calls.Follow calls') :
    ∀ body : List Stmt,
      Follows (executeAll calls.execute body) (executeAll calls'.execute (Stmt.allPruned body))
  | [] => .pure _
  | st :: rest => by
    rw [Stmt.allPruned]
    split
    · next hreturns => exact follows_returns (h.execute st) (h.returns st hreturns)
    · exact .bind (h.execute st) fun _ => follows_unlessReturning (follows_executeAll h rest)

/-- A block is pruned by pruning its statements. -/
theorem follows_executeBlock (h : calls.Follow calls') (body : List Stmt) :
    Follows (executeBlock calls.execute body)
      (executeBlock calls'.execute (Stmt.allPruned body)) :=
  .inBlock (follows_executeAll h body)

/-- An assignment makes an object of the pruned class, or none. -/
theorem follows_assign (h : calls.Follow calls') (target : Target) (value : Value) :
    Follows (assign cx calls.construct target value)
      (assign cx.pruned calls'.construct target value) := by
  cases value with
  | cls name =>
    refine .bind (follows_constructNamed h.construct name) fun value => ?_
    cases target with
    | var x =>
      refine .reads_bind (g := id) (fun s => s.environment.contains_pruned x) fun known => ?_
      cases known with
      | true => exact .write _ value
      | false => exact .declare x value
    | member head path => exact .write _ value
  | _ => exact .write target _

/-- One step of a statement. -/
theorem follows_executeStep (h : calls.Follow calls') :
    ∀ st : Stmt, Follows (executeStep cx calls st) (executeStep cx.pruned calls' st.pruned)
  | .declare d =>
    .bind (follows_initialValue h.evaluate h.construct d) fun value => .declare d.name value
  | .assign target e => .bind (h.evaluate e) fun value => follows_assign h target value
  | .call e => .bind (h.evaluate e) fun _ => .pure _
  | .ret e => .bind (h.evaluate e) fun value => .modify (fun _ => rfl) fun _ => rfl
  | .ifThen condition body => .bind (h.evaluate condition) fun value => by
    split
    · exact follows_executeBlock h body
    · exact .pure _
  | .ifElse condition body otherwise => .bind (h.evaluate condition) fun value => by
    split
    · exact follows_executeBlock h body
    · exact follows_executeBlock h otherwise
  | .loop condition body => .bind (h.evaluate condition) fun value => by
    split
    · exact .bind (follows_executeBlock h body) fun _ =>
        follows_unlessReturning (h.execute (.loop condition body))
    · exact .pure _
  | .block body => follows_executeBlock h body

/-- Among statements, one that returns on every path is reached or the end has come
before. -/
theorem returns_executeAll {execute : Stmt → Run Unit}
    (h : ∀ st, st.definitelyReturns = true → (execute st).Returns) :
    ∀ {body : List Stmt}, Stmt.anyReturns body = true → (executeAll execute body).Returns
  | st :: rest, hbody => by
    intro s t hrun
    obtain ⟨_, u, hst, hrun⟩ := Run.bind_eq_ok hrun
    obtain ⟨returning, v, hread, hrun⟩ := Run.bind_eq_ok hrun
    cases hread
    split at hrun
    · next hreturning =>
      cases hrun
      exact hreturning
    · next hreturning =>
      rw [Stmt.anyReturns, Bool.or_eq_true] at hbody
      rcases hbody with hst' | hrest
      · exact absurd (h st hst' hst) hreturning
      · exact returns_executeAll h hrest hrun

/-- One step of a statement that returns on every path. -/
theorem returns_executeStep
    (h : ∀ st, st.definitelyReturns = true → (calls.execute st).Returns) :
    ∀ st : Stmt, st.definitelyReturns = true → (executeStep cx calls st).Returns
  | .ret e, _ => by
    intro s t hrun
    obtain ⟨value, u, -, hreturn⟩ := Run.bind_eq_ok hrun
    cases hreturn
    rfl
  | .ifElse condition body otherwise, hboth => by
    rw [Stmt.definitelyReturns, Bool.and_eq_true] at hboth
    intro s t hrun
    obtain ⟨value, u, -, hbranch⟩ := Run.bind_eq_ok hrun
    split at hbranch
    · exact (returns_executeAll h hboth.1).inBlock hbranch
    · exact (returns_executeAll h hboth.2).inBlock hbranch
  | .block body, hbody => by
    rw [Stmt.definitelyReturns] at hbody
    exact (returns_executeAll h hbody).inBlock

/-! ## Objects and calls -/

/-- One step of making an object. -/
theorem follows_constructStep (h : calls.Follow calls') (c : ClassDef) :
    Follows (constructStep cx calls c) (constructStep cx.pruned calls' c.pruned) :=
  .bind (h.deeper (.inBlock (follows_memberValues
    (follows_initialValue h.evaluate h.construct) c.fields ∅))) fun _ _ hs =>
      .inr ⟨_, _, rfl, rfl, hs.of_natives rfl⟩

/-- The scope of a call is filled with the same variables and with pruned
methods. -/
theorem follows_bindCall (routine : Routine) (values : List Value) (receiver : Option Ref) :
    Follows (bindCall cx routine values receiver)
      (bindCall cx.pruned routine.pruned values receiver) := by
  unfold bindCall
  cases receiver with
  | none => exact .declareAll _
  | some ref =>
    have hmethods : Follows (Run.declareMethods (cx.methodsOf ref))
        (Run.declareMethods (cx.pruned.methodsOf ref)) := by
      rw [cx.methodsOf_pruned]
      exact .declareMethods _
    exact .reads_bind (g := id) (fun _ => rfl) fun fields => .bind (.declareAll fields.entries)
      fun _ => .bind hmethods fun _ => .declareAll _

/-- What goes back to the caller is looked up in variables. -/
theorem follows_finalValues (bindings : List Binding) (receiver : Option Ref) :
    Follows (finalValues bindings receiver) (finalValues bindings receiver) := by
  refine .bind (.valuesOf _) fun written => ?_
  cases receiver with
  | none => exact .pure _
  | some ref =>
    exact .reads_bind (g := id) (fun _ => rfl) fun _ => .bind (.valuesOf _) fun _ => .pure _

theorem follows_writeBack : ∀ written : List (Binding × Value),
    Follows (writeBack written) (writeBack written)
  | [] => .pure _
  | (b, value) :: rest => .bind (.write b.target value) fun _ => follows_writeBack rest

theorem Binding.isVisible_pruned (e : Environment) (b : Binding) :
    b.isVisible e.pruned = b.isVisible e := by
  rw [isVisible, isVisible]
  split
  · exact e.contains_pruned _
  · rfl

/-- One step of a call. -/
theorem follows_invokeStep (h : calls.Follow calls') (routine : Routine) (arguments : List Expr)
    (receiver : Option Ref) :
    Follows (invokeStep cx calls routine arguments receiver)
      (invokeStep cx.pruned calls' routine.pruned arguments receiver) := by
  refine .bind (follows_evaluateAll h.evaluate arguments) fun values => ?_
  rw [routine.checkArguments_pruned]
  refine .bind (.ofExcept _) fun _ => .reads_bind (g := id) (fun s => ?_) fun bindings => ?_
  · exact List.filter_congr fun b _ => b.isVisible_pruned s.environment
  have hbody : Follows (callBody cx calls routine values receiver bindings)
      (callBody cx.pruned calls' routine.pruned values receiver bindings) :=
    .bind (follows_bindCall routine values receiver) fun _ =>
      .bind (follows_executeAll h routine.body) fun _ => follows_finalValues bindings receiver
  refine .bind (h.deeper (.inCall hbody)) ?_
  rintro ⟨⟨written, fields⟩, returned⟩
  have hback : Follows
      (do
        Run.ofExcept (routine.checkResult returned)
        writeBack (bindings.zip written)
        return returned)
      (do
        Run.ofExcept (routine.pruned.checkResult returned)
        writeBack (bindings.zip written)
        return returned) :=
    .bind (.ofExcept (routine.checkResult returned)) fun _ =>
      .bind (follows_writeBack _) fun _ => .pure _
  cases receiver with
  | none => exact hback
  | some ref => exact .bind (.modify (fun _ => rfl) fun _ => rfl) fun _ => hback

/-! ## Runs -/

/-- **The pruned program follows.** Whatever can be called with some fuel does
the same without the dead statements. -/
theorem follow_callsAt (cx : Context) :
    ∀ fuel : Nat, (callsAt cx fuel).Follow (callsAt cx.pruned fuel)
  | 0 =>
    { evaluate := fun _ => .outOfFuel
      execute := fun _ => .outOfFuel
      returns := fun _ _ _ _ hrun => by cases hrun
      construct := fun _ => .outOfFuel
      invoke := fun _ _ _ => .outOfFuel
      deeper := .deeper }
  | fuel + 1 =>
    have ih := follow_callsAt cx fuel
    { evaluate := follows_evaluateStep ih
      execute := follows_executeStep ih
      returns := returns_executeStep ih.returns
      construct := follows_constructStep ih
      invoke := follows_invokeStep ih
      deeper := .deeper }

/-- A whole run of the pruned program follows that of the program. -/
theorem follows_runMain (cx : Context) (fuel : Nat) :
    Follows (runMain cx fuel) (runMain cx.pruned fuel) := by
  have hmain : cx.pruned.program.functions.get? "main"
      = (cx.program.functions.get? "main").map Routine.pruned := Table.get?_map ..
  rw [runMain, runMain, hmain]
  rcases cx.program.functions.get? "main" with _ | main
  · exact .fail _
  · exact (follow_callsAt cx fuel).invoke main [] none

/-- **Code behind a return is dead.** Let no native see the bodies of methods. Then
a program comes to an end exactly if it does without the statements that stand
behind one that returns on every path. Both end with the same error or the same
value, with the same objects, and have written the same. -/
theorem code_behind_return_is_dead (p : Program) (limit : Nat) (natives : List Native)
    (hnatives : ∀ native ∈ natives, native.IgnoresBodies)
    (r : Except RuntimeError Value) (heap : Heap) (output : String) :
    (∃ s, RunsTo ⟨p, limit⟩ (.ready p natives) r s ∧ s.heap = heap ∧ s.output = output) ↔
      ∃ s, RunsTo ⟨p.pruned, limit⟩ (.ready p.pruned natives) r s ∧ s.heap = heap ∧
        s.output = output := by
  have hhides : (State.ready p natives).HidesBodies :=
    fun _ native hnative => hnatives native (mem_of_native?_ready hnative)
  rw [State.ready_pruned]
  have hpruned (fuel : Nat) := (follows_runMain ⟨p, limit⟩ fuel).run_pruned hhides
  constructor
  · rintro ⟨s, ⟨fuel, hrun⟩, hheap, houtput⟩
    have hrun' := hpruned fuel
    rw [hrun] at hrun'
    exact ⟨s.pruned, ⟨fuel, hrun'⟩, hheap, houtput⟩
  · rintro ⟨_, ⟨fuel, hrun⟩, hheap, houtput⟩
    obtain ⟨⟨_, s⟩, hs, heq⟩ := Option.map_eq_some_iff.mp ((hpruned fuel).symm.trans hrun)
    cases heq
    exact ⟨s, ⟨fuel, hs⟩, hheap, houtput⟩

/-- A program that writes something in front of a statement that returns on both
its paths, and something behind it. -/
def writesBehindReturn : Program where
  functions := .ofList [
    ("main", { returns := .string, name := "main", parameters := [], body := [
      .call (.call (.member "System" ["out", "print"]) [.string "in front"]),
      .ifElse (.boolean false) [.ret (.string "yes")] [.ret (.string "no")],
      .call (.call (.member "System" ["out", "print"]) [.string "behind"])] })]

theorem code_behind_return_is_dead_writesBehindReturn :
    ∃ s, RunsTo ⟨writesBehindReturn.pruned, 1⟩ (.ready writesBehindReturn.pruned [.print])
      (.ok (.string "no")) s ∧ s.heap = {} ∧ s.output = "in front\n" := by
  have hnatives : ∀ native ∈ [Native.print], native.IgnoresBodies := by
    rintro native hmem
    cases List.mem_singleton.mp hmem
    exact ignoresBodies_print
  exact (code_behind_return_is_dead writesBehindReturn 1 [.print] hnatives _ _ _).mp
    ⟨_, ⟨9, rfl⟩, rfl, rfl⟩

/-- A native that does see bodies: it writes a dot for every statement that stands
directly in a method of a class it is given. -/
def Native.dots : Native where
  name := "dots"
  write a := String.join <| a.map fun
    | .cls name => (a.classes.get? name).elim "" fun c =>
      String.ofList (c.methods.flatMap fun method => method.body.map fun _ => '.')
    | _ => ""

/-- A program that gives a class to this native. A method of the class has two
statements, the second of which is dead. -/
def givesClass : Program where
  functions := .ofList [
    ("main", { returns := .void, name := "main", parameters := [], body := [
      .call (.call (.var "dots") [.var "A"])] })]
  classes := .ofList [
    ("A", { name := "A", fields := [], methods := [
      { returns := .boolean, name := "f", parameters := [], body := [
        .ret (.boolean true), .ret (.boolean false)] }] })]

/-- A native that sees bodies sees dead statements too, and can tell the program
from the one without them. -/
theorem dead_code_shows_in_bodies :
    (∃ s, RunsTo ⟨givesClass, 1⟩ (.ready givesClass [.dots]) (.ok .void) s ∧ s.output = "..") ∧
      ∀ r s, RunsTo ⟨givesClass.pruned, 1⟩ (.ready givesClass.pruned [.dots]) r s →
        s.output = "." := by
  refine ⟨⟨_, ⟨9, rfl⟩, rfl⟩, fun r s hrun => ?_⟩
  obtain ⟨t, ht, houtput⟩ : ∃ t, RunsTo ⟨givesClass.pruned, 1⟩
      (.ready givesClass.pruned [.dots]) (.ok .void) t ∧ t.output = "." := ⟨_, ⟨9, rfl⟩, rfl⟩
  obtain ⟨-, rfl⟩ := hrun.unique ht
  exact houtput

-- A block returns if a statement in it does, a condition need not hold.
example (e : Expr) (st : Stmt) :
    Stmt.allPruned [.ifThen e [.ret e], .block [.ret e, st], st]
      = [.ifThen e [.ret e], .block [.ret e]] := rfl

end ClassLang
