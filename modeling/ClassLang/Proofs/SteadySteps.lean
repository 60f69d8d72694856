import ClassLang.Proofs.SafeCalls
import ClassLang.Proofs.Steady

/-!
# Programs that leave some names alone

A program that writes to allowed names only (`Program.WritesOnly`) leaves steady
states steady, since what it evaluates, executes and calls are parts of it. The
module shows it of one step of evaluation, of a statement and of making an
object.

The guard is a parameter. All parts of the program have to pass it
(`Guard.Passes`), and it has to accept the steady states (`Guard.Accepts`).
-/

namespace ClassLang

open Run (Steady)

/-! ## Parts of programs -/

namespace Program

variable {p : Program} {e inner : Expr} {st : Stmt}

/-- The expressions of a statement of the program are expressions of the program. -/
theorem HasStmt.hasExpr (hst : p.HasStmt st) (he : e ∈ st.expressions) : p.HasExpr e :=
  ⟨_, .statement hst he⟩

/-- Operands of an expression of the program are expressions of the program. -/
theorem HasExpr.operand (he : p.HasExpr e) (hinner : inner ∈ e.operands) : p.HasExpr inner :=
  have ⟨_, he⟩ := he
  ⟨_, .inside he hinner⟩

/-- Arguments of a call are its operands. -/
theorem operands_of_arguments? {arguments : List Expr} (h : e.arguments? = some arguments) :
    e.operands = arguments := by
  cases e <;> cases h <;> rfl

/-- Arguments are expressions of the program. -/
theorem HasArgument.hasExpr (h : p.HasArgument e) : p.HasExpr e := by
  obtain ⟨call, arguments, hcall, harguments, he⟩ := h
  exact hcall.operand (operands_of_arguments? harguments ▸ he)

/-- The program writes to variables and fields of these names only, as far as
that can be told from assignments and from arguments that might be passed by
reference. -/
structure WritesOnly (p : Program) (allowed : String → Prop) : Prop where
  /-- by assignments -/
  assign : ∀ target e, p.HasStmt (.assign target e) → allowed target.lastName
  /-- by calls -/
  argument : ∀ e target, p.HasArgument e → e.target? = some target → allowed target.lastName

end Program

/-- All parts of the program pass the guard. -/
structure Guard.Passes (g : Guard) (p : Program) : Prop where
  /-- the expressions -/
  evaluate : ∀ e, p.HasExpr e → g.evaluate e
  /-- the statements -/
  execute : ∀ st, p.HasStmt st → g.execute st
  /-- the routines, with arguments of the program -/
  invoke : ∀ routine arguments, p.Defines routine → (∀ e ∈ arguments, p.HasArgument e) →
    g.invoke routine arguments

/-- The properties of scopes survive what is allowed, and the guard accepts the
steady states whose scopes have them and whose heap is as asked, whatever scopes
are opened above. -/
structure Guard.Accepts {allowed : String → Prop} (g : Guard) (p : Program) (H : Horizon allowed)
    (h : Heap) (Ψ : List (Scope → Prop)) : Prop where
  /-- assignments do not destroy the properties -/
  stable : ∀ ψ ∈ Ψ, Scope.Stable allowed ψ
  /-- the guard accepts the states -/
  state : ∀ Φ s, s.IsSteady p allowed h (Φ ++ Ψ) → H.holds s.heap → g.state s

section

variable {g : Guard} {p : Program} {allowed : String → Prop} {H : Horizon allowed} {h h' : Heap}
  {ψ : Scope → Prop} {Ψ : List (Scope → Prop)}

namespace Guard.Accepts

/-- What a guard accepts it accepts later. -/
theorem since (hg : g.Accepts p H h Ψ) (hh : h.Spares allowed h') :
    g.Accepts p H h' Ψ :=
  ⟨hg.stable, fun Φ s hs => hg.state Φ s (hs.since hh)⟩

/-- What a guard accepts it accepts with one more scope on top. -/
theorem cons (hg : g.Accepts p H h Ψ) (hψ : Scope.Stable allowed ψ) :
    g.Accepts p H h (ψ :: Ψ) :=
  ⟨List.forall_mem_cons.mpr ⟨hψ, hg.stable⟩, fun Φ s hs =>
    hg.state (Φ ++ [ψ]) s (by rwa [List.append_assoc])⟩

/-- In a scope of which nothing need be known. -/
theorem inside (hg : g.Accepts p H h Ψ) :
    g.Accepts p H h ((fun _ => True) :: Ψ) :=
  hg.cons fun _ _ _ _ _ => trivial

end Guard.Accepts

end

/-- What can be called leaves steady states steady, as far as it is a part of
the program. -/
structure Calls.Steady {allowed : String → Prop} (cx : Context) (H : Horizon allowed) (g : Guard)
    (calls calls' : Calls) : Prop where
  /-- evaluation -/
  evaluate : ∀ {h Ψ}, g.Accepts cx.program H h Ψ → ∀ e, cx.program.HasExpr e →
    Run.Steady cx.program H Ψ h (fun v h' => v.ExistsIn h') (calls.evaluate e)
      (calls'.evaluate e)
  /-- execution, in a scope that may take declarations -/
  execute : ∀ {h ψ Ψ}, g.Accepts cx.program H h (ψ :: Ψ) → Scope.Open ψ → ∀ st,
    cx.program.HasStmt st →
    Run.Steady cx.program H (ψ :: Ψ) h (fun _ _ => True) (calls.execute st)
      (calls'.execute st)
  /-- making an object -/
  construct : ∀ {h Ψ}, g.Accepts cx.program H h Ψ → ∀ c ∈ cx.program.classes.values,
    Run.Steady cx.program H Ψ h (fun ref h' => ref.ExistsIn h') (calls.construct c)
      (calls'.construct c)
  /-- calling a routine, on an object that is there -/
  invoke : ∀ {h Ψ}, g.Accepts cx.program H h Ψ → ∀ routine arguments receiver,
    cx.program.Defines routine → (∀ e ∈ arguments, cx.program.HasArgument e) →
    (∀ ref, receiver = some ref → ref.ExistsIn h) →
    Run.Steady cx.program H Ψ h (fun v h' => v.ExistsIn h')
      (calls.invoke routine arguments receiver) (calls'.invoke routine arguments receiver)
  /-- going deeper -/
  deeper : ∀ {Ψ h} {α : Type} {post : α → Heap → Prop} {m m' : Run α},
    Run.Steady cx.program H Ψ h post m m' →
    Run.Steady cx.program H Ψ h post (calls.deeper m) (calls'.deeper m')

section

variable {cx : Context} {g : Guard} {allowed : String → Prop} {H : Horizon allowed} {h : Heap}
  {ψ : Scope → Prop} {Ψ : List (Scope → Prop)} {calls calls' : Calls}

/-! ## Values -/

section

variable {p : Program} {evaluate evaluate' : Expr → Run Value}
  {construct construct' : ClassDef → Run Ref}

/-- Evaluating arguments is steady if evaluating each of them is. -/
theorem steady_evaluateAll : ∀ {es : List Expr} {h : Heap},
    (∀ e ∈ es, Steady p H Ψ h (fun v h' => v.ExistsIn h') (evaluate e) (evaluate' e)) →
    Steady p H Ψ h (fun values h' => ∀ v ∈ values, v.ExistsIn h') (evaluateAll evaluate es)
      (evaluateAll evaluate' es)
  | [], _, _ => .pure fun _ _ _ hv => by cases hv
  | e :: rest, h, hes => by
    obtain ⟨hhead, hrest⟩ := List.forall_mem_cons.mp hes
    refine .bind hhead fun v h₁ hh₁ hv => ?_
    refine .bind (steady_evaluateAll fun e he => (hrest e he).since hh₁) fun values h₂ hh₂ hvs => ?_
    refine .pure fun h₃ hh₃ => List.forall_mem_cons.mpr ⟨?_, fun w hw => ?_⟩
    · exact hv.mono (hh₂.trans hh₃).grows
    · exact (hvs w hw).mono hh₃.grows

/-- Constructing by name is steady if constructing is. -/
theorem steady_constructNamed
    (hconstruct : ∀ c ∈ cx.program.classes.values,
      Steady p H Ψ h (fun ref h' => ref.ExistsIn h') (construct c) (construct' c))
    (name : String) :
    Steady p H Ψ h (fun v h' => v.ExistsIn h') (constructNamed cx construct name)
      (constructNamed cx construct' name) := by
  refine .bind (Q := fun c _ => c ∈ cx.program.classes.values)
    (.ofExcept fun c h' _ hc => ?_) fun c h₁ hh₁ hc => ?_
  · rw [Context.classNamed] at hc
    split at hc <;> cases hc
    exact Table.mem_values_of_get? ‹_›
  · exact .bind ((hconstruct c hc).since hh₁) fun ref h₂ _ href => .pure fun h₃ hh₃ =>
      Ref.ExistsIn.mono hh₃.grows href

/-- Finding the first value of a variable is steady if evaluating and constructing
are. -/
theorem steady_initialValue {d : Declaration}
    (hevaluate : ∀ e, d.initial = some e →
      Steady p H Ψ h (fun v h' => v.ExistsIn h') (evaluate e) (evaluate' e))
    (hconstruct : ∀ c ∈ cx.program.classes.values,
      Steady p H Ψ h (fun ref h' => ref.ExistsIn h') (construct c) (construct' c)) :
    Steady p H Ψ h (fun v h' => v.ExistsIn h') (initialValue cx evaluate construct d)
      (initialValue cx evaluate' construct' d) := by
  have hnamed : ∀ name, Steady p H Ψ h (fun v h' => v.ExistsIn h')
      (constructNamed cx construct name) (constructNamed cx construct' name) :=
    steady_constructNamed hconstruct
  have hcheck : ∀ (value : Value) (h' : Heap), value.ExistsIn h' →
      Steady p H Ψ h' (fun v h' => v.ExistsIn h')
        (if value.type = d.type then pure value
          else Run.fail (.invalidInitialisation d.name d.type value.type))
        (if value.type = d.type then pure value
          else Run.fail (.invalidInitialisation d.name d.type value.type)) := by
    intro value h' hvalue
    split
    · exact .pure fun _ hh => hvalue.mono hh.grows
    · exact .fail _
  rw [initialValue, initialValue]
  rcases hinitial : d.initial with _ | e
  · cases d.type with
    | cls name => exact hnamed name
    | _ => exact .pure fun h' _ => (Value.existsIn_zero h' _).1
  · refine .bind (hevaluate e hinitial) fun value h₁ hh₁ hvalue => ?_
    cases value with
    | cls name =>
      exact .bind ((hnamed name).since hh₁) fun value h₂ _ hvalue => hcheck value h₂ hvalue
    | _ =>
      exact .bind (.pure fun _ hh => hvalue.mono hh.grows) fun value h₂ _ hvalue =>
        hcheck value h₂ hvalue

/-- Setting up the fields of a new object is steady if finding their first values
is. -/
theorem steady_memberValues (hopen : Scope.Open ψ)
    {initialValue initialValue' : Declaration → Run Value} :
    ∀ {ds : List Declaration} {fields : Table Value} {h : Heap},
      (∀ d ∈ ds, Steady p H (ψ :: Ψ) h (fun v h' => v.ExistsIn h') (initialValue d)
        (initialValue' d)) →
      (∀ name v, fields.get? name = some v → v.ExistsIn h) →
      Steady p H (ψ :: Ψ) h
        (fun fields h' => ∀ name v, fields.get? name = some v → v.ExistsIn h')
        (memberValues initialValue fields ds) (memberValues initialValue' fields ds)
  | [], _, _, _, hfields => .pure fun _ hh name v hv => (hfields name v hv).mono hh.grows
  | d :: _, fields, h, hds, hfields => by
    obtain ⟨hhead, hrest⟩ := List.forall_mem_cons.mp hds
    refine .bind hhead fun value h₁ hh₁ hvalue => .bind (.declare hopen hvalue) fun _ h₂ hh₂ _ => ?_
    have hh := hh₁.trans hh₂
    refine steady_memberValues hopen (fun d hd => (hrest d hd).since hh) fun name v hv => ?_
    rw [Table.get?_insert] at hv
    split at hv
    · cases hv
      exact hvalue.mono hh₂.grows
    · exact (hfields name v hv).mono hh.grows

end

/-! ## Expressions -/

section

variable {evaluate evaluate' : Expr → Run Value}
  {invoke invoke' : Routine → List Expr → Option Ref → Run Value}

/-- A call of a native is steady if evaluating its arguments is. -/
theorem steady_callNative {p : Program} {arguments : List Expr}
    (hevaluate : ∀ e ∈ arguments,
      Steady p H Ψ h (fun v h' => v.ExistsIn h') (evaluate e) (evaluate' e))
    (native : Native) :
    Steady p H Ψ h (fun v h' => v.ExistsIn h') (callNative cx evaluate native arguments)
      (callNative cx evaluate' native arguments) :=
  .bind (steady_evaluateAll hevaluate) fun _ _ _ _ =>
    .bind (Q := fun _ _ => True) (.reads fun _ _ => trivial) fun _ _ _ _ =>
      .bind (.print _) fun _ _ _ _ => .pure fun _ _ => trivial

/-- A call of a function is steady if evaluating and calling routines are. -/
theorem steady_callFunction {arguments : List Expr}
    (hevaluate : ∀ e ∈ arguments,
      Steady cx.program H Ψ h (fun v h' => v.ExistsIn h') (evaluate e) (evaluate' e))
    (hinvoke : ∀ routine, cx.program.Defines routine →
      Steady cx.program H Ψ h (fun v h' => v.ExistsIn h') (invoke routine arguments none)
        (invoke' routine arguments none))
    (name : String) :
    Steady cx.program H Ψ h (fun v h' => v.ExistsIn h')
      (callFunction cx evaluate invoke name arguments)
      (callFunction cx evaluate' invoke' name arguments) := by
  rw [callFunction, callFunction]
  split
  · split
    · exact .pure fun _ _ => trivial
    · exact .fail _
  · refine .bind (Q := fun routine _ => ∀ r, routine = some r → cx.program.Defines r)
      (.reads fun s hs r hr => hs.routines.method? hr) fun routine h₁ hh₁ hroutine => ?_
    rcases routine with _ | routine
    · refine .bind (Q := fun _ _ => True) (.reads fun _ _ => trivial) fun native h₂ hh₂ _ => ?_
      rcases native with _ | native
      · exact .fail _
      · exact steady_callNative (fun e he => (hevaluate e he).since (hh₁.trans hh₂)) native
    · exact (hinvoke routine (hroutine routine rfl)).since hh₁

/-- A dotted call is steady if evaluating and calling routines are, and its receiver
is there. -/
theorem steady_callMember {arguments : List Expr}
    (hevaluate : ∀ e ∈ arguments,
      Steady cx.program H Ψ h (fun v h' => v.ExistsIn h') (evaluate e) (evaluate' e))
    (hinvoke : ∀ h', h.Spares allowed h' → ∀ routine receiver, cx.program.Defines routine →
      (∀ ref, receiver = some ref → ref.ExistsIn h') →
      Steady cx.program H Ψ h' (fun v h' => v.ExistsIn h')
        (invoke routine arguments receiver) (invoke' routine arguments receiver))
    (head : String) (path : List String) :
    Steady cx.program H Ψ h (fun v h' => v.ExistsIn h')
      (callMember cx evaluate invoke head path arguments)
      (callMember cx evaluate' invoke' head path arguments) := by
  refine .bind (Q := fun _ _ => True) (.reads fun _ _ => trivial) fun native h₁ hh₁ _ => ?_
  rcases native with _ | native
  · refine .bind (Q := fun _ _ => True) (.reads fun _ _ => trivial) fun value h₂ hh₂ _ => ?_
    split
    · refine .bind (Q := fun ref h' => ref.ExistsIn h')
        (.tryReads fun s ref hs href => hs.whole.objectAt href) fun receiver h₃ hh₃ hreceiver => ?_
      split
      · next method hmethod =>
        refine hinvoke h₃ ((hh₁.trans hh₂).trans hh₃) _ _
          (Context.defines_of_methodOf? hmethod) fun ref href => ?_
        cases href
        exact hreceiver
      · exact .fail _
    · exact .fail _
  · exact steady_callNative (fun e he => (hevaluate e he).since hh₁) native

end

/-- One step of evaluation. -/
theorem steady_evaluateStep (hc : calls.Steady cx H g calls')
    (hg : g.Accepts cx.program H h Ψ) {e : Expr} (he : cx.program.HasExpr e) :
    Steady cx.program H Ψ h (fun v h' => v.ExistsIn h') (evaluateStep cx calls e)
      (evaluateStep cx calls' e) := by
  have hoperand : ∀ inner ∈ e.operands, Steady cx.program H Ψ h (fun v h' => v.ExistsIn h')
      (calls.evaluate inner) (calls'.evaluate inner) :=
    fun inner hinner => hc.evaluate hg inner (he.operand hinner)
  have hinvoke : ∀ arguments, e.arguments? = some arguments → ∀ h', h.Spares allowed h' →
      ∀ routine receiver, cx.program.Defines routine →
      (∀ ref, receiver = some ref → ref.ExistsIn h') →
      Steady cx.program H Ψ h' (fun v h' => v.ExistsIn h')
        (calls.invoke routine arguments receiver) (calls'.invoke routine arguments receiver) :=
    fun arguments harguments h' hh routine receiver hroutine hreceiver =>
      hc.invoke (hg.since hh) routine arguments receiver hroutine
        (fun argument hargument => ⟨e, arguments, he, harguments, hargument⟩) hreceiver
  cases e with
  | integer _ | decimal _ _ _ | string _ | boolean _ => exact .pure fun _ _ => trivial
  | var name =>
    refine .bind (Q := fun value h' => ∀ v, value = some v → v.ExistsIn h')
      (.reads fun s hs v hv => hs.whole.lookup? hv) fun value h₁ _ hvalue => ?_
    rcases value with _ | v
    · dsimp only
      split
      · exact .pure fun _ _ => trivial
      · exact .fail _
    · exact .pure fun _ hh => (hvalue v rfl).mono hh.grows
  | member head path => exact .tryReads fun s v hs hv => hs.whole.member hv
  | not operand =>
    exact .bind (hoperand operand (List.mem_singleton_self _)) fun _ _ _ _ =>
      .pure fun _ _ => trivial
  | logic op left right =>
    have hleft := hoperand left List.mem_cons_self
    have hright := hoperand right (List.mem_cons_of_mem _ (List.mem_singleton_self _))
    cases op with
    | or =>
      refine .bind hleft fun l h₁ hh₁ _ => ?_
      split
      · exact .pure fun _ _ => trivial
      · exact .bind (hright.since hh₁) fun _ _ _ _ => .pure fun _ _ => trivial
    | and =>
      exact .bind hleft fun _ h₁ hh₁ _ => .bind (hright.since hh₁) fun _ _ _ _ =>
        .pure fun _ _ => trivial
  | binary op left right =>
    have hleft := hoperand left List.mem_cons_self
    have hright := hoperand right (List.mem_cons_of_mem _ (List.mem_singleton_self _))
    exact .bind hleft fun l h₁ hh₁ _ => .bind (hright.since hh₁) fun r h₂ _ _ =>
      .bind (Q := fun _ _ => True) (.ofExcept fun _ _ _ _ => trivial) fun _ _ _ _ =>
        .ofExcept fun _ h' _ hv => BinaryOp.existsIn_of_apply h' hv
  | relation op negated left right =>
    have hleft := hoperand left List.mem_cons_self
    have hright := hoperand right (List.mem_cons_of_mem _ (List.mem_singleton_self _))
    exact .bind hleft fun l h₁ hh₁ _ => .bind (hright.since hh₁) fun r h₂ _ _ =>
      .bind (Q := fun _ _ => True) (.ofExcept fun _ _ _ _ => trivial) fun _ _ _ _ =>
        .ofExcept fun _ h' _ hv => RelationOp.existsIn_of_apply h' hv
  | call target arguments =>
    cases target with
    | var name =>
      exact steady_callFunction hoperand (fun routine hroutine =>
        hinvoke arguments rfl h (.refl h) routine none hroutine fun _ hnone => by cases hnone) name
    | member head path => exact steady_callMember hoperand (hinvoke arguments rfl) head path
  | methodCall head path arguments =>
    exact steady_callMember hoperand (hinvoke arguments rfl) head path

/-! ## Statements -/

/-- What is skipped if a `return` is on its way out. -/
theorem steady_unlessReturning {p : Program} {m m' : Run Unit}
    (hm : Steady p H Ψ h (fun _ _ => True) m m') :
    Steady p H Ψ h (fun _ _ => True)
      (do if ← Run.isReturning then return () else m)
      (do if ← Run.isReturning then return () else m') := by
  refine .bind (Q := fun _ _ => True) (.reads fun _ _ => trivial) fun returning h₁ hh₁ _ => ?_
  split
  · exact .pure fun _ _ => trivial
  · exact hm.since hh₁

/-- A list of statements is steady if each of them is. -/
theorem steady_executeAll {p : Program} {execute execute' : Stmt → Run Unit} :
    ∀ {body : List Stmt} {h : Heap},
      (∀ st ∈ body, Steady p H Ψ h (fun _ _ => True) (execute st) (execute' st)) →
      Steady p H Ψ h (fun _ _ => True) (executeAll execute body) (executeAll execute' body)
  | [], _, _ => .pure fun _ _ => trivial
  | _ :: _, _, hbody => by
    obtain ⟨hhead, hrest⟩ := List.forall_mem_cons.mp hbody
    exact .bind hhead fun _ _ hh _ =>
      steady_unlessReturning (steady_executeAll fun st hst => (hrest st hst).since hh)

/-- A block is steady if its statements are. -/
theorem steady_executeBlock (hc : calls.Steady cx H g calls')
    (hg : g.Accepts cx.program H h Ψ) {body : List Stmt}
    (hbody : ∀ st ∈ body, cx.program.HasStmt st) :
    Steady cx.program H Ψ h (fun _ _ => True) (executeBlock calls.execute body)
      (executeBlock calls'.execute body) :=
  .inBlock trivial (steady_executeAll fun st hst =>
    hc.execute hg.inside Scope.open_true st (hbody st hst))

/-- Assignment to an allowed name is steady. -/
theorem steady_assign (hc : calls.Steady cx H g calls')
    (hg : g.Accepts cx.program H h (ψ :: Ψ)) (hopen : Scope.Open ψ) {target : Target}
    (htarget : allowed target.lastName) {value : Value} (hvalue : value.ExistsIn h) :
    Steady cx.program H (ψ :: Ψ) h (fun _ _ => True) (assign cx calls.construct target value)
      (assign cx calls'.construct target value) := by
  cases value with
  | cls name =>
    refine .bind (steady_constructNamed (hc.construct hg) name) fun v h₁ hh₁ hv => ?_
    cases target with
    | var x =>
      refine .bind (Q := fun _ _ => True) (.reads fun _ _ => trivial) fun known h₂ hh₂ _ => ?_
      split
      · exact .write hg.stable htarget (hv.mono hh₂.grows)
      · exact .declare hopen (hv.mono hh₂.grows)
    | member head path => exact .write hg.stable htarget hv
  | _ => exact .write hg.stable htarget hvalue

/-- One step of a statement. -/
theorem steady_executeStep (hw : cx.program.WritesOnly allowed)
    (hc : calls.Steady cx H g calls') (hg : g.Accepts cx.program H h (ψ :: Ψ))
    (hopen : Scope.Open ψ) {st : Stmt} (hst : cx.program.HasStmt st) :
    Steady cx.program H (ψ :: Ψ) h (fun _ _ => True) (executeStep cx calls st)
      (executeStep cx calls' st) := by
  have hevaluate : ∀ e ∈ st.expressions, Steady cx.program H (ψ :: Ψ) h
      (fun v h' => v.ExistsIn h') (calls.evaluate e) (calls'.evaluate e) :=
    fun e he => hc.evaluate hg e (hst.hasExpr he)
  have hblock : ∀ body, (∀ inner ∈ body, inner ∈ st.nested) → ∀ h', h.Spares allowed h' →
      Steady cx.program H (ψ :: Ψ) h' (fun _ _ => True) (executeBlock calls.execute body)
        (executeBlock calls'.execute body) :=
    fun body hbody h' hh => steady_executeBlock hc (hg.since hh) fun inner hinner =>
      .nested hst (hbody inner hinner)
  cases st with
  | declare d =>
    refine .bind (steady_initialValue (fun e he => hevaluate e (Option.mem_toList.mpr he))
      (hc.construct hg)) fun v h₁ _ hv => .declare hopen hv
  | assign target e =>
    exact .bind (hevaluate e (List.mem_singleton_self e)) fun v h₁ hh₁ hv =>
      steady_assign hc (hg.since hh₁) hopen (hw.assign target e hst) hv
  | call e =>
    exact .bind (hevaluate e (List.mem_singleton_self e)) fun _ _ _ _ => .pure fun _ _ => trivial
  | ret e =>
    exact .bind (hevaluate e (List.mem_singleton_self e)) fun _ _ _ hv => .setReturn hv
  | ifThen condition body =>
    refine .bind (hevaluate condition (List.mem_singleton_self _)) fun value h₁ hh₁ _ => ?_
    split
    · exact hblock body (fun _ => id) h₁ hh₁
    · exact .pure fun _ _ => trivial
  | ifElse condition body otherwise =>
    refine .bind (hevaluate condition (List.mem_singleton_self _)) fun value h₁ hh₁ _ => ?_
    split
    · exact hblock body (fun _ => List.mem_append_left _) h₁ hh₁
    · exact hblock otherwise (fun _ => List.mem_append_right _) h₁ hh₁
  | loop condition body =>
    refine .bind (hevaluate condition (List.mem_singleton_self _)) fun value h₁ hh₁ _ => ?_
    split
    · exact .bind (hblock body (fun _ => id) h₁ hh₁) fun _ h₂ hh₂ _ =>
        steady_unlessReturning (hc.execute (hg.since (hh₁.trans hh₂)) hopen _ hst)
    · exact .pure fun _ _ => trivial
  | block body => exact hblock body (fun _ => id) h (.refl h)

/-! ## Objects -/

/-- One step of making an object. -/
theorem steady_constructStep (hc : calls.Steady cx H g calls')
    (hg : g.Accepts cx.program H h Ψ) {c : ClassDef}
    (hclass : c ∈ cx.program.classes.values) :
    Steady cx.program H Ψ h (fun ref h' => ref.ExistsIn h') (constructStep cx calls c)
      (constructStep cx calls' c) := by
  have hinitial : ∀ d ∈ c.fields, Steady cx.program H ((fun _ => True) :: Ψ) h
      (fun v h' => v.ExistsIn h') (initialValue cx calls.evaluate calls.construct d)
      (initialValue cx calls'.evaluate calls'.construct d) :=
    fun d hd => steady_initialValue
      (fun e he => hc.evaluate hg.inside e ⟨_, .field hclass hd he⟩) (hc.construct hg.inside)
  exact .bind (hc.deeper (.inBlock trivial (steady_memberValues Scope.open_true hinitial
    fun _ _ hv => by cases hv))) fun fields h₁ _ hfields => .allocate hfields

end

end ClassLang
