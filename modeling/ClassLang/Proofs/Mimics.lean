import ClassLang.Proofs.Alike
import ClassLang.Session

/-!
# Runs that start in states alike

From states that a program cannot tell apart, computations run alike
(`Run.Mimics`): both end, in results and states that are alike again, or
neither does. What makes a result of the first run the result of the second is
a function: objects come at their new places, and nothing else changes.

The rules for sequencing and for scopes come first. Then one step of the
interpreter after the other is found to keep this up if what it calls does
(`Calls.Mimic`), and induction on fuel gives the interpreter.
-/

namespace ClassLang

open Value (relocate)

namespace Run

variable {α β γ δ : Type} {p : Past} {k : Nat}

/-- Neither outcome is there, or both are, with results and states alike. -/
def Outcomes (p : Past) (k : Nat) (g : α → β) (x : Option (Except RuntimeError α × State))
    (x' : Option (Except RuntimeError β × State)) : Prop :=
  (x = none ∧ x' = none) ∨
    ∃ r t t', x = some (r, t) ∧ x' = some (r.map g, t') ∧ p.Alike k t t'

/-- From states alike, the second computation runs as the first one does. -/
def Mimics (p : Past) (k : Nat) (g : α → β) (m : Run α) (m' : Run β) : Prop :=
  ∀ ⦃s s'⦄, p.Alike k s s' → Outcomes p k g (m s) (m' s')

namespace Mimics

variable {g : α → β} {m : Run α} {m' : Run β}

/-! ## Rules -/

/-- Computations one after the other run alike if each of them does. -/
theorem bind {g' : γ → δ} {f : α → Run γ} {f' : β → Run δ} (hm : Mimics p k g m m')
    (hf : ∀ a, Mimics p k g' (f a) (f' (g a))) : Mimics p k g' (m >>= f) (m' >>= f') := by
  intro s s' hs
  rcases hm hs with ⟨hnone, hnone'⟩ | ⟨e | a, t, t', hms, hms', ht⟩
  · exact .inl ⟨bind_of_none hnone, bind_of_none hnone'⟩
  · exact .inr ⟨.error e, t, t', bind_of_error hms, bind_of_error hms', ht⟩
  · rw [bind_of_ok hms, bind_of_ok hms']
    exact hf a ht

/-- A look-up runs alike if it finds the same in states alike, moved. -/
theorem tryReads {f : State → Except RuntimeError α} {f' : State → Except RuntimeError β}
    (h : ∀ s s', p.Alike k s s' → f' s' = (f s).map g) :
    Mimics p k g (Run.tryReads f) (Run.tryReads f') :=
  fun s s' hs => .inr ⟨f s, s, s', rfl, by rw [← h s s' hs]; rfl, hs⟩

theorem ofExcept {x : Except RuntimeError α} {x' : Except RuntimeError β} (h : x' = x.map g) :
    Mimics p k g (Run.ofExcept x) (Run.ofExcept x') :=
  tryReads fun _ _ _ => h

theorem pure {a : α} {b : β} (h : b = g a) :
    Mimics p k g (Pure.pure a : Run α) (Pure.pure b : Run β) :=
  ofExcept (congrArg Except.ok h)

theorem fail (e : RuntimeError) : Mimics p k g (Run.fail e) (Run.fail e) :=
  ofExcept rfl

/-- So does one that cannot fail. -/
theorem reads {f : State → α} {f' : State → β} (h : ∀ s s', p.Alike k s s' → f' s' = g (f s)) :
    Mimics p k g (Run.reads f) (Run.reads f') :=
  tryReads fun s s' hs => congrArg Except.ok (h s s' hs)

theorem outOfFuel : Mimics p k g (Run.outOfFuel : Run α) (Run.outOfFuel : Run β) :=
  fun _ _ _ => .inl ⟨rfl, rfl⟩

/-- A change runs alike if it leaves states alike. -/
theorem modify {f f' : State → State} (h : ∀ s s', p.Alike k s s' → p.Alike k (f s) (f' s')) :
    Mimics p k id (Run.modify f) (Run.modify f') :=
  fun s s' hs => .inr ⟨.ok (), f s, f' s', rfl, rfl, h s s' hs⟩

/-- In a scope of its own, a body runs alike if it does with one more scope in
common. -/
theorem inBlock (h : Mimics p (k + 1) g m m') : Mimics p k g (Run.inBlock m) (Run.inBlock m') := by
  intro s s' hs
  rw [Run.inBlock, Run.inBlock]
  rcases h (hs.withEnvironment hs.environment.startBlock) with
    ⟨hnone, hnone'⟩ | ⟨r, t, t', hm, hm', ht⟩
  · rw [hnone, hnone']
    exact .inl ⟨rfl, rfl⟩
  · rw [hm, hm']
    exact .inr ⟨r, _, _, rfl, rfl, ht.withEnvironment ht.environment.endBlock⟩

/-- So does the body of a call. What it returns is moved as well. -/
theorem inCall (h : Mimics p (k + 1) g m m') :
    Mimics p k (Prod.map g (relocate p.place)) (Run.inCall m) (Run.inCall m') := by
  intro s s' hs
  rw [Run.inCall, Run.inCall]
  rcases h (hs.withEnvironment hs.environment.startBlock) with
    ⟨hnone, hnone'⟩ | ⟨r, t, t', hm, hm', ht⟩
  · rw [hnone, hnone']
    exact .inl ⟨rfl, rfl⟩
  · rw [hm, hm']
    have hreturned : t'.environment.leaveCall.1 = relocate p.place t.environment.leaveCall.1 := by
      rw [Environment.leaveCall, Environment.leaveCall, ht.environment.agrees.pendingReturn]
      cases t.environment.pendingReturn <;> rfl
    refine .inr ⟨r.map (·, t.environment.leaveCall.1), _, _, rfl, ?_,
      ht.withEnvironment (ht.environment.endBlock.withReturn none)⟩
    change some (Except.map (·, t'.environment.leaveCall.1) (r.map g), _) = _
    rw [hreturned]
    cases r <;> rfl

/-- The depth is the same in both states, and so is what it allows. -/
theorem deeper {limit : Nat} (h : Mimics p k g m m') :
    Mimics p k g (Run.deeper limit m) (Run.deeper limit m') := by
  intro s s' hs
  rw [Run.deeper, Run.deeper, hs.depth]
  split
  · exact .inr ⟨.error (.callDepthExceeded limit), s, s', rfl, rfl, hs⟩
  · have hdeeper : p.Alike k { s with depth := s.depth + 1 } { s' with depth := s.depth + 1 } :=
      ⟨hs.environment, hs.heap, rfl, hs.output⟩
    rcases h hdeeper with ⟨hnone, hnone'⟩ | ⟨r, t, t', hm, hm', ht⟩
    · rw [hnone, hnone']
      exact .inl ⟨rfl, rfl⟩
    · rw [hm, hm']
      exact .inr ⟨r, _, _, rfl, rfl, ht.environment, ht.heap, by rw [ht.depth], ht.output⟩

/-! ## Declaring and writing -/

theorem isReturning : Mimics p k id Run.isReturning Run.isReturning :=
  reads fun _ _ hs => hs.environment.isReturning

/-- A declaration goes into the scope that both have on top. -/
theorem declare (name : String) (value : Value) :
    Mimics p (k + 1) id (Run.declare name value)
      (Run.declare name (value.relocate p.place)) := by
  intro s s' hs
  simp only [Run.declare, Run.tryModify]
  rcases hs.environment.declare name value with ⟨e, he, he'⟩ | ⟨t, t', ht, ht', halike⟩
  · rw [he, he']
    exact .inr ⟨.error e, s, s', rfl, rfl, hs⟩
  · rw [ht, ht']
    exact .inr ⟨.ok (), _, _, rfl, rfl, hs.withEnvironment halike⟩

theorem declareAll : ∀ entries : List (String × Value),
    Mimics p (k + 1) id (Run.declareAll entries)
      (Run.declareAll (entries.map (Prod.map id (relocate p.place))))
  | [] => pure rfl
  | (name, value) :: rest => bind (declare name value) fun _ => declareAll rest

theorem declareMethods (routines : List Routine) :
    Mimics p (k + 1) id (Run.declareMethods routines) (Run.declareMethods routines) := by
  refine modify fun s s' hs => hs.withEnvironment ?_
  suffices h : ∀ {e e' : Environment}, e.Alike p.place (k + 1) e' →
      (routines.foldl Environment.declareMethod e).Alike p.place (k + 1)
        (routines.foldl Environment.declareMethod e') from h hs.environment
  induction routines with
  | nil => exact id
  | cons routine rest ih => exact fun h => ih (h.declareMethod routine)

theorem valuesOf : ∀ names : List String,
    Mimics p k (List.map (relocate p.place)) (Run.valuesOf names) (Run.valuesOf names)
  | [] => pure rfl
  | name :: rest =>
    bind (tryReads fun _ _ hs => hs.environment.get name) fun _ =>
      bind (valuesOf rest) fun _ => pure rfl

/-- A target names the same slot in both states, but for the place of an object. -/
theorem write (target : Target) (value : Value) :
    Mimics p k id (Run.write target value) (Run.write target (value.relocate p.place)) :=
  bind (tryReads fun _ _ hs => hs.slot target) fun slot =>
    modify fun _ _ hs => hs.put slot value

/-- A new object comes behind the others in both heaps. -/
theorem allocate (object : Object) :
    Mimics p k (Ref.relocate p.place) (Run.allocate object)
      (Run.allocate (object.relocate p.place)) := by
  intro s s' hs
  obtain ⟨href, hheap⟩ := hs.heap.allocate object
  refine .inr ⟨.ok (s.heap.allocate object).1, _, _, rfl, ?_, hs.withHeap hheap⟩
  change some (Except.ok (s'.heap.allocate (object.relocate p.place)).1, _) = _
  rw [Past.place, href]
  rfl

end Mimics

end Run

open Run (Mimics)

/-- Whatever can be called runs alike, from states alike. Statements are only
run in a scope that is the same on both sides. -/
structure Calls.Mimic (p : Past) (calls : Calls) : Prop where
  /-- evaluation -/
  evaluate : ∀ k e, Mimics p k (relocate p.place) (calls.evaluate e) (calls.evaluate e)
  /-- execution -/
  execute : ∀ k st, Mimics p (k + 1) id (calls.execute st) (calls.execute st)
  /-- making an object -/
  construct : ∀ k c, Mimics p k (Ref.relocate p.place) (calls.construct c) (calls.construct c)
  /-- calling a routine -/
  invoke : ∀ k routine arguments receiver, Mimics p k (relocate p.place)
    (calls.invoke routine arguments receiver)
    (calls.invoke routine arguments (receiver.map (Ref.relocate p.place)))
  /-- going one level deeper -/
  deeper : ∀ {k : Nat} {α β : Type} {g : α → β} {m : Run α} {m' : Run β}, Mimics p k g m m' →
    Mimics p k g (calls.deeper m) (calls.deeper m')

variable {p : Past} {k : Nat} {cx : Context}

/-! ## Values -/

section

variable {evaluate : Expr → Run Value} {construct : ClassDef → Run Ref}
  {invoke : Routine → List Expr → Option Ref → Run Value}

/-- Expressions give the same values, moved. -/
theorem mimics_evaluateAll (h : ∀ e, Mimics p k (relocate p.place) (evaluate e) (evaluate e)) :
    ∀ es : List Expr, Mimics p k (List.map (relocate p.place)) (evaluateAll evaluate es)
      (evaluateAll evaluate es)
  | [] => .pure rfl
  | e :: rest => .bind (h e) fun _ => .bind (mimics_evaluateAll h rest) fun _ => .pure rfl

/-- An object made by the name of its class is the same, moved. -/
theorem mimics_constructNamed
    (h : ∀ c, Mimics p k (Ref.relocate p.place) (construct c) (construct c)) (name : String) :
    Mimics p k (relocate p.place) (constructNamed cx construct name)
      (constructNamed cx construct name) := by
  refine .bind (g := id) (.ofExcept ?_) fun c => .bind (h c) fun _ => .pure rfl
  cases cx.classNamed name <;> rfl

/-- A declaration starts out with the same value, moved. -/
theorem mimics_initialValue
    (hevaluate : ∀ e, Mimics p k (relocate p.place) (evaluate e) (evaluate e))
    (hconstruct : ∀ c, Mimics p k (Ref.relocate p.place) (construct c) (construct c))
    (d : Declaration) :
    Mimics p k (relocate p.place) (initialValue cx evaluate construct d)
      (initialValue cx evaluate construct d) := by
  have hnamed : ∀ name, Mimics p k (relocate p.place) (constructNamed cx construct name)
      (constructNamed cx construct name) :=
    mimics_constructNamed hconstruct
  have hcheck : ∀ value : Value, Mimics p k (relocate p.place)
      (if value.type = d.type then pure value
        else Run.fail (.invalidInitialisation d.name d.type value.type))
      (if (value.relocate p.place).type = d.type then pure (value.relocate p.place)
        else Run.fail (.invalidInitialisation d.name d.type (value.relocate p.place).type)) := by
    intro value
    rw [Value.type_relocate]
    split
    · exact .pure rfl
    · exact .fail _
  rw [initialValue]
  rcases d.initial with _ | e
  · cases d.type with
    | cls name => exact hnamed name
    | _ => exact .pure rfl
  · refine .bind (hevaluate e) fun value => ?_
    cases value with
    | cls name => exact .bind (hnamed name) hcheck
    | _ => exact .bind (g := relocate p.place) (.pure rfl) hcheck

/-- The fields of a new object hold the same, moved. -/
theorem mimics_memberValues {initialValue : Declaration → Run Value}
    (h : ∀ d, Mimics p (k + 1) (relocate p.place) (initialValue d) (initialValue d)) :
    ∀ (ds : List Declaration) (fields : Table Value),
      Mimics p (k + 1) (Table.map (relocate p.place)) (memberValues initialValue fields ds)
        (memberValues initialValue (fields.map (relocate p.place)) ds)
  | [], _ => .pure rfl
  | d :: rest, fields => by
    refine .bind (h d) fun value => .bind (.declare d.name value) fun _ => ?_
    rw [← Table.map_insert]
    exact mimics_memberValues h rest _

/-! ## Calls -/

/-- A native that overlooks the new places writes the same. -/
theorem mimics_callNative {native : Native} (hnative : native.Overlooks p.place)
    (hevaluate : ∀ e, Mimics p k (relocate p.place) (evaluate e) (evaluate e))
    (arguments : List Expr) :
    Mimics p k (relocate p.place) (callNative cx evaluate native arguments)
      (callNative cx evaluate native arguments) := by
  refine .bind (mimics_evaluateAll hevaluate arguments) fun values => ?_
  -- What is written is looked up in the heap and printed at once.
  intro s s' hs
  have hmoved : Arguments.Moved p.place ⟨values, cx.program.classes, s.heap⟩
      ⟨values.map (relocate p.place), cx.program.classes, s'.heap⟩ :=
    ⟨rfl, rfl, hs.heap.object?⟩
  have hprint := hs.print (native.write ⟨values, cx.program.classes, s.heap⟩)
  refine .inr ⟨.ok .void, _, _, rfl, ?_, hprint⟩
  rw [← hnative hmoved]
  rfl

/-- A native that is found does not notice the new places. -/
theorem mimics_native {name : String} {f : Option Native → Run Value}
    (hnone : Mimics p k (relocate p.place) (f none) (f none))
    (hsome : ∀ native : Native, native.Overlooks p.place →
      Mimics p k (relocate p.place) (f (some native)) (f (some native))) :
    Mimics p k (relocate p.place) (Run.reads (·.environment.native? name) >>= f)
      (Run.reads (·.environment.native? name) >>= f) := by
  intro s s' hs
  have hread : ∀ t : State, (Run.reads (·.environment.native? name) >>= f) t
      = f (t.environment.native? name) t := fun _ => rfl
  rw [hread, hread, hs.environment.native?]
  rcases hnative : s.environment.native? name with _ | native
  · exact hnone hs
  · exact hsome native (hs.environment.agrees.overlooks name native hnative) hs

/-- A call by a name without dots runs alike. -/
theorem mimics_callFunction
    (hevaluate : ∀ e, Mimics p k (relocate p.place) (evaluate e) (evaluate e))
    (hinvoke : ∀ routine arguments,
      Mimics p k (relocate p.place) (invoke routine arguments none) (invoke routine arguments none))
    (name : String) (arguments : List Expr) :
    Mimics p k (relocate p.place) (callFunction cx evaluate invoke name arguments)
      (callFunction cx evaluate invoke name arguments) := by
  rw [callFunction]
  split
  · split
    · exact .pure rfl
    · exact .fail _
  · refine .bind (g := id) (.reads fun _ _ hs => hs.environment.agrees.method? name)
      fun routine => ?_
    rcases routine with _ | routine
    · exact mimics_native (.fail _) fun native hnative =>
        mimics_callNative hnative hevaluate arguments
    · exact hinvoke routine arguments

/-- A call by a dotted name runs alike: the method is that of the class, which has
not moved. -/
theorem mimics_callMember
    (hevaluate : ∀ e, Mimics p k (relocate p.place) (evaluate e) (evaluate e))
    (hinvoke : ∀ routine arguments receiver, Mimics p k (relocate p.place)
      (invoke routine arguments receiver)
      (invoke routine arguments (receiver.map (Ref.relocate p.place))))
    (head : String) (path : List String) (arguments : List Expr) :
    Mimics p k (relocate p.place) (callMember cx evaluate invoke head path arguments)
      (callMember cx evaluate invoke head path arguments) := by
  refine mimics_native ?_ fun native hnative => mimics_callNative hnative hevaluate arguments
  refine .bind (.reads fun _ _ hs => hs.environment.agrees.lookup? head) fun value => ?_
  rcases value with _ | value
  · exact .fail _
  · cases value with
    | object ref =>
      rcases path.getLast? with _ | name
      · exact .fail _
      · refine .bind (.tryReads fun _ _ hs => hs.objectAt head path.dropLast) fun receiver => ?_
        have hmethod : cx.methodOf? (receiver.relocate p.place) name = cx.methodOf? receiver name :=
          rfl
        rw [hmethod]
        split
        · exact hinvoke _ arguments _
        · exact .fail _
    | _ => exact .fail _

end

/-! ## Expressions -/

variable {calls : Calls}

/-- One step of evaluation. -/
theorem mimics_evaluateStep (h : calls.Mimic p) :
    ∀ e : Expr, Mimics p k (relocate p.place) (evaluateStep cx calls e) (evaluateStep cx calls e)
  | .integer _ | .decimal _ _ _ | .string _ | .boolean _ => .pure rfl
  | .var name => by
    refine .bind (.reads fun _ _ hs => hs.environment.agrees.lookup? name) fun value => ?_
    rcases value with _ | value
    · dsimp only [Option.map_none]
      split
      · exact .pure rfl
      · exact .fail _
    · exact .pure rfl
  | .member head path => .tryReads fun _ _ hs => hs.member head path
  | .not operand => .bind (h.evaluate k operand) fun value => .pure (by
    rw [Value.isTruthy_relocate]
    rfl)
  | .logic .or left right => by
    refine .bind (h.evaluate k left) fun l => ?_
    rw [Value.isTruthy_relocate]
    split
    · exact .pure rfl
    · exact .bind (h.evaluate k right) fun r => .pure (by rw [Value.isTruthy_relocate]; rfl)
  | .logic .and left right =>
    .bind (h.evaluate k left) fun l => .bind (h.evaluate k right) fun r => .pure (by
      rw [Value.isTruthy_relocate, Value.isTruthy_relocate]
      rfl)
  | .binary op left right =>
    .bind (h.evaluate k left) fun l => .bind (h.evaluate k right) fun r =>
      .bind (g := id) (.ofExcept (by
        rw [checkOperands_relocate, Except.map_id]
        rfl)) fun _ =>
        .ofExcept (op.apply_relocate (injective_behind p.objects) _ l r)
  | .relation op negated left right =>
    .bind (h.evaluate k left) fun l => .bind (h.evaluate k right) fun r =>
      .bind (g := id) (.ofExcept (by
        rw [checkOperands_relocate, Except.map_id]
        rfl)) fun _ =>
        .ofExcept (op.apply_relocate l r)
  | .call (.var name) arguments =>
    mimics_callFunction (h.evaluate k) (fun routine arguments => h.invoke k routine arguments none)
      name arguments
  | .call (.member head path) arguments =>
    mimics_callMember (h.evaluate k) (h.invoke k) head path arguments
  | .methodCall head path arguments =>
    mimics_callMember (h.evaluate k) (h.invoke k) head path arguments

/-! ## Statements -/

/-- Behind a statement, both stop for a `return` or both go on. -/
theorem mimics_unlessReturning {m : Run Unit} (h : Mimics p k id m m) :
    Mimics p k id (do if ← Run.isReturning then return () else m)
      (do if ← Run.isReturning then return () else m) :=
  .bind .isReturning fun returning => by
    cases returning with
    | false => exact h
    | true => exact .pure rfl

/-- Statements run alike one after the other. -/
theorem mimics_executeAll (h : calls.Mimic p) :
    ∀ body : List Stmt, Mimics p (k + 1) id (executeAll calls.execute body)
      (executeAll calls.execute body)
  | [] => .pure rfl
  | st :: rest =>
    .bind (h.execute k st) fun _ => mimics_unlessReturning (mimics_executeAll h rest)

theorem mimics_executeBlock (h : calls.Mimic p) (body : List Stmt) :
    Mimics p k id (executeBlock calls.execute body) (executeBlock calls.execute body) :=
  .inBlock (mimics_executeAll h body)

/-- An assignment makes the same object on both sides, or none. -/
theorem mimics_assign (h : calls.Mimic p) (target : Target) (value : Value) :
    Mimics p (k + 1) id (assign cx calls.construct target value)
      (assign cx calls.construct target (value.relocate p.place)) := by
  cases value with
  | cls name =>
    refine .bind (mimics_constructNamed (h.construct (k + 1)) name) fun value => ?_
    cases target with
    | var x =>
      refine .bind (g := id) (.reads fun _ _ hs => hs.environment.contains x) fun known => ?_
      cases known with
      | true => exact .write (.var x) value
      | false => exact .declare x value
    | member head path => exact .write _ value
  | _ => exact .write target _

/-- One step of a statement. -/
theorem mimics_executeStep (h : calls.Mimic p) :
    ∀ st : Stmt, Mimics p (k + 1) id (executeStep cx calls st) (executeStep cx calls st)
  | .declare d =>
    .bind (mimics_initialValue (h.evaluate (k + 1)) (h.construct (k + 1)) d) fun value =>
      .declare d.name value
  | .assign target e => .bind (h.evaluate (k + 1) e) fun value => mimics_assign h target value
  | .call e => .bind (h.evaluate (k + 1) e) fun _ => .pure rfl
  | .ret e => .bind (h.evaluate (k + 1) e) fun value =>
    .modify fun _ _ hs => hs.withEnvironment (hs.environment.withReturn (some value))
  | .ifThen condition body => .bind (h.evaluate (k + 1) condition) fun value => by
    rw [Value.isTruthy_relocate]
    split
    · exact mimics_executeBlock h body
    · exact .pure rfl
  | .ifElse condition body otherwise => .bind (h.evaluate (k + 1) condition) fun value => by
    rw [Value.isTruthy_relocate]
    split
    · exact mimics_executeBlock h body
    · exact mimics_executeBlock h otherwise
  | .loop condition body => .bind (h.evaluate (k + 1) condition) fun value => by
    rw [Value.isTruthy_relocate]
    split
    · exact .bind (mimics_executeBlock h body) fun _ => mimics_unlessReturning (h.execute k _)
    · exact .pure rfl
  | .block body => mimics_executeBlock h body

/-! ## Objects and calls -/

/-- One step of making an object. -/
theorem mimics_constructStep (h : calls.Mimic p) (c : ClassDef) :
    Mimics p k (Ref.relocate p.place) (constructStep cx calls c) (constructStep cx calls c) :=
  .bind (h.deeper (.inBlock (mimics_memberValues
    (mimics_initialValue (h.evaluate (k + 1)) (h.construct (k + 1))) c.fields ∅)))
    fun fields => .allocate { className := c.name, fields }

/-- What the end of a call hands back, with objects at their new places. -/
def relocateFinal (f : Nat → Nat) :
    List Value × List (String × Value) → List Value × List (String × Value) :=
  Prod.map (List.map (relocate f)) (List.map (Prod.map id (relocate f)))

/-- The scope of a call is filled with the same, moved. -/
theorem mimics_bindCall (routine : Routine) (values : List Value) (receiver : Option Ref) :
    Mimics p (k + 1) id (bindCall cx routine values receiver)
      (bindCall cx routine (values.map (relocate p.place))
        (receiver.map (Ref.relocate p.place))) := by
  have hparameters : Mimics p (k + 1) id
      (Run.declareAll ((routine.parameters.map Parameter.name).zip values))
      (Run.declareAll ((routine.parameters.map Parameter.name).zip
        (values.map (relocate p.place)))) := by
    rw [List.zip_map_right]
    exact .declareAll _
  unfold bindCall
  cases receiver with
  | none => exact hparameters
  | some ref =>
    refine .bind (.reads fun _ _ hs => hs.fields ref) fun fields => ?_
    refine .bind (g := id) ?_ fun _ => .bind (.declareMethods _) fun _ => hparameters
    exact .declareAll fields.entries

/-- What goes back to the caller is the same, moved. -/
theorem mimics_finalValues (bindings : List Binding) (receiver : Option Ref) :
    Mimics p k (relocateFinal p.place) (finalValues bindings receiver)
      (finalValues bindings (receiver.map (Ref.relocate p.place))) := by
  refine .bind (.valuesOf _) fun written => ?_
  cases receiver with
  | none => exact .pure rfl
  | some ref =>
    refine .bind (.reads fun _ _ hs => hs.fields ref) fun fields => ?_
    rw [Table.names_map]
    refine .bind (.valuesOf _) fun values => .pure ?_
    rw [List.zip_map_right]
    rfl

theorem mimics_writeBack : ∀ written : List (Binding × Value),
    Mimics p k id (writeBack written) (writeBack (written.map (Prod.map id (relocate p.place))))
  | [] => .pure rfl
  | (b, value) :: rest => .bind (.write b.target value) fun _ => mimics_writeBack rest

/-- What happens in the scope of a call runs alike. -/
theorem mimics_callBody (h : calls.Mimic p) (routine : Routine) (values : List Value)
    (receiver : Option Ref) (bindings : List Binding) :
    Mimics p (k + 1) (relocateFinal p.place) (callBody cx calls routine values receiver bindings)
      (callBody cx calls routine (values.map (relocate p.place))
        (receiver.map (Ref.relocate p.place)) bindings) :=
  .bind (mimics_bindCall routine values receiver) fun _ =>
    .bind (mimics_executeAll h routine.body) fun _ => mimics_finalValues bindings receiver

/-- A binding can be written to in both environments or in neither. -/
theorem isVisible_of_alike {f : Nat → Nat} {e e' : Environment} (h : e.Alike f k e')
    (b : Binding) : b.isVisible e' = b.isVisible e := by
  rw [Binding.isVisible, Binding.isVisible]
  split
  · exact h.contains _
  · rfl

/-- One step of a call. -/
theorem mimics_invokeStep (h : calls.Mimic p) (routine : Routine) (arguments : List Expr)
    (receiver : Option Ref) :
    Mimics p k (relocate p.place) (invokeStep cx calls routine arguments receiver)
      (invokeStep cx calls routine arguments (receiver.map (Ref.relocate p.place))) := by
  refine .bind (mimics_evaluateAll (h.evaluate k) arguments) fun values => ?_
  refine .bind (g := id) (.ofExcept ?_) fun _ => ?_
  · rw [Routine.checkArguments_relocate, Except.map_id]
    rfl
  refine .bind (g := id) (.reads fun s s' hs => ?_) fun bindings => ?_
  · exact List.filter_congr fun b _ => isVisible_of_alike hs.environment b
  refine .bind (h.deeper (.inCall (mimics_callBody h routine values receiver bindings))) ?_
  rintro ⟨⟨written, fields⟩, returned⟩
  have hback : Mimics p k (relocate p.place)
      (do
        Run.ofExcept (routine.checkResult returned)
        writeBack (bindings.zip written)
        return returned)
      (do
        Run.ofExcept (routine.checkResult (returned.relocate p.place))
        writeBack (bindings.zip (written.map (relocate p.place)))
        return returned.relocate p.place) := by
    refine .bind (g := id) (.ofExcept ?_) fun _ => ?_
    · rw [Routine.checkResult_relocate, Except.map_id]
      rfl
    rw [List.zip_map_right]
    exact .bind (mimics_writeBack _) fun _ => .pure rfl
  cases receiver with
  | none => exact hback
  | some ref => exact .bind (.modify fun _ _ hs => hs.putFields ref fields) fun _ => hback

/-! ## Runs -/

/-- **From states alike, runs are alike.** Whatever can be called with some fuel
ends in both, alike, or in neither. -/
theorem mimic_callsAt (p : Past) (cx : Context) : ∀ fuel : Nat, (callsAt cx fuel).Mimic p
  | 0 =>
    { evaluate := fun _ _ => .outOfFuel
      execute := fun _ _ => .outOfFuel
      construct := fun _ _ => .outOfFuel
      invoke := fun _ _ _ _ => .outOfFuel
      deeper := .deeper }
  | fuel + 1 =>
    have ih := mimic_callsAt p cx fuel
    { evaluate := fun _ e => mimics_evaluateStep ih e
      execute := fun _ st => mimics_executeStep ih st
      construct := fun _ c => mimics_constructStep ih c
      invoke := fun _ routine arguments receiver => mimics_invokeStep ih routine arguments receiver
      deeper := .deeper }

/-- A whole run runs alike. -/
theorem mimics_runMain (p : Past) (cx : Context) (fuel : Nat) :
    Mimics p 0 (relocate p.place) (runMain cx fuel) (runMain cx fuel) := by
  rw [runMain]
  split
  · exact (mimic_callsAt p cx fuel).invoke 0 _ [] none
  · exact .fail _

end ClassLang
