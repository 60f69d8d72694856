import ClassLang.Proofs.Fuel
import ClassLang.Proofs.Routines
import ClassLang.Proofs.Steps
import ClassLang.Program.WellFormed

/-!
# Programs without loops come to an end

Without loops there are two ways to go on. A computation goes to a smaller part
of the tree it runs, or it calls a routine or makes an object, and then it starts
at the top of another tree, but one level deeper. The limit on nesting allows
only so many of these. So the induction is on the levels that are left, and for
one level on the tree.

How much fuel is needed depends on how the run goes. It is not computed here:
from some amount on, a computation has one and the same outcome (`Run.Ends`),
and where two follow each other the larger amount serves for both.
-/

namespace ClassLang

open Run (Keeps)

/-! ## Computations that end -/

namespace Run

variable {α β : Type} {P Q : State → Prop}

/-- With enough fuel a computation ends, in one way and in a state that has the
property that it started with. -/
def Ends (P : State → Prop) (m : Nat → Run α) : Prop :=
  ∀ ⦃s⦄, P s → ∃ r t, P t ∧ ∃ n, ∀ n' ≥ n, m n' s = some (r, t)

namespace Ends

/-- What needs no fuel ends. -/
theorem of_basic {m : Run α} (hm : m.Basic) (hkeeps : Keeps P m) : Ends P fun _ => m := by
  intro s hs
  obtain ⟨r, t, hrun, -⟩ := hm s
  exact ⟨r, t, hkeeps hs hrun, 0, fun _ _ => hrun⟩

/-- A result that does not depend on the state ends. -/
theorem ofExcept {x : Except RuntimeError α} : Ends P fun _ => Run.ofExcept x :=
  fun s hs => ⟨x, s, hs, 0, fun _ _ => rfl⟩

/-- Looking something up that may be missing ends. -/
theorem tryReads (f : State → Except RuntimeError α) : Ends P fun _ => Run.tryReads f :=
  fun s hs => ⟨f s, s, hs, 0, fun _ _ => rfl⟩

theorem pure (a : α) : Ends P fun _ => (Pure.pure a : Run α) := ofExcept

theorem fail (e : RuntimeError) : Ends P fun _ => (Run.fail e : Run α) := ofExcept

/-- A change of the state ends, in a state that must have the property again. -/
theorem modify {f : State → State} (h : ∀ s, P s → P (f s)) : Ends P fun _ => Run.modify f :=
  fun s hs => ⟨.ok (), f s, h s hs, 0, fun _ _ => rfl⟩

/-- If a first computation ends, and the next one does after it, both do. -/
theorem bind {m : Nat → Run α} {f : Nat → α → Run β} (hm : Ends P m)
    (hf : ∀ a, Ends P fun n => f n a) : Ends P fun n => m n >>= f n := by
  intro s hs
  obtain ⟨e | a, t, ht, n, hn⟩ := hm hs
  · exact ⟨.error e, t, ht, n, fun n' hle => bind_of_error (hn n' hle)⟩
  · obtain ⟨r, u, hu, k, hk⟩ := hf a ht
    refine ⟨r, u, hu, max n k, fun n' hle => ?_⟩
    obtain ⟨hle, hle'⟩ := Nat.max_le.mp hle
    exact (bind_of_ok (hn n' hle)).trans (hk n' hle')

/-- What is looked up comes from a state with the property. -/
theorem reads_bind {look : State → α} {f : Nat → α → Run β}
    (hf : ∀ s, P s → Ends P fun n => f n (look s)) : Ends P fun n => Run.reads look >>= f n :=
  fun s hs => hf s hs hs

/-- What ends between an opening and a closing ends, if both keep the properties. -/
theorem around {opening closing : State → State} {wrap : α → State → β} {m : Nat → Run α}
    (hopening : ∀ s, P s → Q (opening s)) (hclosing : ∀ s, Q s → P (closing s)) (hm : Ends Q m) :
    Ends P fun n => Run.around opening closing wrap (m n) := by
  intro s hs
  obtain ⟨r, t, ht, n, hn⟩ := hm (hopening s hs)
  exact ⟨_, _, hclosing t ht, n, fun n' hle => around_of_some (hn n' hle)⟩

/-- A unit of fuel more or less makes no difference. -/
theorem of_succ {m : Nat → Run α} (h : Ends P fun n => m (n + 1)) : Ends P m := by
  intro s hs
  obtain ⟨r, t, ht, n, hn⟩ := h hs
  refine ⟨r, t, ht, n + 1, fun n' hle => ?_⟩
  obtain ⟨k, rfl⟩ := Nat.exists_eq_add_of_le' (Nat.le_of_add_left_le hle)
  exact hn k (by omega)

end Ends

end Run

open Run (Ends)

/-! ## States with so many levels left -/

/-- Calls and constructions can nest at most so many levels deeper, and the
routines in the scopes are those of the program. -/
structure State.Within (cx : Context) (levels : Nat) (s : State) : Prop where
  /-- the limit is not further away -/
  depth : cx.maxDepth ≤ s.depth + levels
  /-- the routines are of the program -/
  routines : s.environment.HasRoutinesOf cx.program

variable {cx : Context} {levels : Nat}

namespace State.Within

variable {s t : State}

/-- Both are a matter of the shape of the state. -/
theorem of_shape (h : s.Within cx levels) (hshape : t.shape = s.shape) : t.Within cx levels where
  depth := by
    have hdepth : t.depth = s.depth := congrArg Shape.depth hshape
    rw [hdepth]
    exact h.depth
  routines := by
    have hscopes : t.environment.shapes = s.environment.shapes := congrArg Shape.scopes hshape
    rw [Environment.HasRoutinesOf, hscopes]
    exact h.routines

end State.Within

/-- Writing to a slot leaves as many levels. -/
theorem within_put (s : State) (slot : Slot) (value : Value) (h : s.Within cx levels) :
    (s.put slot value).Within cx levels :=
  h.of_shape (s.shape_put slot value)

/-- A declaration leaves as many levels. -/
theorem within_declare (name : String) (value : Value) :
    Keeps (State.Within cx levels) (Run.declare name value) := by
  refine .tryModify fun s t hs ht => ?_
  rcases hdeclare : s.environment.declare name value with e | e <;> rw [hdeclare] at ht <;> cases ht
  exact ⟨hs.depth, hs.routines.declare hdeclare⟩

/-- So do several declarations. -/
theorem within_declareAll :
    ∀ entries : List (String × Value), Keeps (State.Within cx levels) (Run.declareAll entries)
  | [] => .pure _
  | (name, value) :: rest => .bind (within_declare name value) fun _ => within_declareAll rest

/-- So do declarations of methods of the program. -/
theorem within_declareMethods {routines : List Routine}
    (h : ∀ r ∈ routines, cx.program.Defines r) :
    Keeps (State.Within cx levels) (Run.declareMethods routines) :=
  .modify fun _ hs => ⟨hs.depth, hs.routines.declareMethods h⟩

/-- Filling the scope of a call leaves as many levels. -/
theorem within_bindCall (routine : Routine) (values : List Value) (receiver : Option Ref) :
    Keeps (State.Within cx levels) (bindCall cx routine values receiver) := by
  unfold bindCall
  cases receiver with
  | none => exact within_declareAll _
  | some ref =>
    exact .bind (.reads _) fun fields => .bind (within_declareAll fields.entries) fun _ =>
      .bind (within_declareMethods fun _ hr => Context.defines_of_mem_methodsOf hr) fun _ =>
        within_declareAll _

/-- A block ends if what happens in its scope does. -/
theorem ends_inBlock {α : Type} {m : Nat → Run α} (h : Ends (State.Within cx levels) m) :
    Ends (State.Within cx levels) fun n => Run.inBlock (m n) := by
  simp only [Run.inBlock_eq_around]
  exact .around (fun _ hs => ⟨hs.depth, hs.routines.startBlock⟩)
    (fun _ hs => ⟨hs.depth, hs.routines.endBlock⟩) h

/-- A call ends if what happens in its scopes does. -/
theorem ends_inCall {α : Type} {m : Nat → Run α} (h : Ends (State.Within cx levels) m) :
    Ends (State.Within cx levels) fun n => Run.inCall (m n) := by
  simp only [Run.inCall_eq_around]
  exact .around (fun _ hs => ⟨hs.depth, hs.routines.startBlock⟩)
    (fun _ hs => ⟨hs.depth, hs.routines.endBlock⟩) h

/-- One level deeper there is one level less, or none was left and nothing is
run. -/
theorem ends_deeper {α : Type} {m : Nat → Run α}
    (h : ∀ fewer < levels, Ends (State.Within cx fewer) m) :
    Ends (State.Within cx levels) fun n => Run.deeper cx.maxDepth (m n) := by
  intro s hs
  rcases Nat.lt_or_ge s.depth cx.maxDepth with hlt | hle
  · have hlevels := hs.depth
    have hinside : State.Within cx (levels - 1) { s with depth := s.depth + 1 } :=
      ⟨by dsimp only; omega, hs.routines⟩
    obtain ⟨r, t, ht, n, hn⟩ := h (levels - 1) (by omega) hinside
    have hdepth := ht.depth
    have houtside : State.Within cx levels { t with depth := t.depth - 1 } :=
      ⟨by dsimp only; omega, ht.routines⟩
    exact ⟨_, _, houtside, n, fun n' hle =>
      (Run.deeper_of_lt (m n') hlt).trans (Run.around_of_some (hn n' hle))⟩
  · exact ⟨_, s, hs, 0, fun n _ => Run.deeper_of_le (m n) hle⟩

/-! ## Values -/

section

variable {P : State → Prop} {evaluate : Nat → Expr → Run Value}
  {construct : Nat → ClassDef → Run Ref}

/-- Evaluating arguments ends if evaluating each of them does. -/
theorem ends_evaluateAll : ∀ {es : List Expr}, (∀ e ∈ es, Ends P fun n => evaluate n e) →
    Ends P fun n => evaluateAll (evaluate n) es
  | [], _ => .pure _
  | e :: rest, h => by
    obtain ⟨he, hrest⟩ := List.forall_mem_cons.mp h
    exact .bind he fun _ => .bind (ends_evaluateAll hrest) fun _ => .pure _

/-- Constructing by name ends if constructing does. -/
theorem ends_constructNamed (h : ∀ c, Ends P fun n => construct n c) (name : String) :
    Ends P fun n => constructNamed cx (construct n) name :=
  .bind .ofExcept fun c => .bind (h c) fun _ => .pure _

/-- Finding the first value of a variable ends if evaluating and constructing do. -/
theorem ends_initialValue (hevaluate : ∀ e, Ends P fun n => evaluate n e)
    (hconstruct : ∀ c, Ends P fun n => construct n c) (d : Declaration) :
    Ends P fun n => initialValue cx (evaluate n) (construct n) d := by
  have hnamed : ∀ name, Ends P fun n => constructNamed cx (construct n) name :=
    ends_constructNamed hconstruct
  have hcheck : ∀ value : Value, Ends P fun _ => (if value.type = d.type then pure value
      else Run.fail (.invalidInitialisation d.name d.type value.type)) := by
    intro value
    split
    · exact .pure _
    · exact .fail _
  unfold initialValue
  rcases d.initial with _ | e
  · cases d.type with
    | cls name => exact hnamed name
    | _ => exact .pure _
  · refine .bind (hevaluate e) fun value => ?_
    cases value with
    | cls name => exact .bind (hnamed name) hcheck
    | _ => exact .bind (.pure _) hcheck

/-- Setting up the fields of a new object ends, field by field. -/
theorem ends_memberValues {initialValue : Nat → Declaration → Run Value}
    (h : ∀ d, Ends (State.Within cx levels) fun n => initialValue n d) :
    ∀ (ds : List Declaration) (fields : Table Value),
      Ends (State.Within cx levels) fun n => memberValues (initialValue n) fields ds
  | [], _ => .pure _
  | d :: rest, _ =>
    .bind (h d) fun value => .bind (.of_basic (.declare d.name value) (within_declare _ _)) fun _ =>
      ends_memberValues h rest _

end

/-! ## Calls -/

/-- What can be called comes to an end, with so many levels left. -/
structure EndsWithin (cx : Context) (levels : Nat) : Prop where
  /-- evaluation -/
  evaluate : ∀ e, Ends (State.Within cx levels) fun n => evaluate cx n e
  /-- making an object -/
  construct : ∀ c, Ends (State.Within cx levels) fun n => construct cx n c
  /-- executing a statement without loops -/
  execute : ∀ st, st.isLoopFree = true → Ends (State.Within cx levels) fun n => execute cx n st

/-- A list of statements ends if each of them does. -/
theorem ends_executeAll {P : State → Prop} {execute : Nat → Stmt → Run Unit} :
    ∀ {body : List Stmt}, (∀ st ∈ body, Ends P fun n => execute n st) →
      Ends P fun n => executeAll (execute n) body
  | [], _ => .pure _
  | st :: rest, h => by
    obtain ⟨hst, hrest⟩ := List.forall_mem_cons.mp h
    refine .bind hst fun _ => .bind (.tryReads _) fun returning => ?_
    split
    · exact .pure _
    · exact ends_executeAll hrest

/-- A block ends if its statements do. -/
theorem ends_executeBlock {execute : Nat → Stmt → Run Unit} {body : List Stmt}
    (h : ∀ st ∈ body, Ends (State.Within cx levels) fun n => execute n st) :
    Ends (State.Within cx levels) fun n => executeBlock (execute n) body :=
  ends_inBlock (ends_executeAll h)

/-- The statements of a list without loops are without loops. -/
theorem Stmt.isLoopFree_of_mem {st : Stmt} : ∀ {body : List Stmt}, allLoopFree body = true →
    st ∈ body → st.isLoopFree = true
  | other :: rest, hbody, hst => by
    rw [allLoopFree, Bool.and_eq_true] at hbody
    rcases List.mem_cons.mp hst with rfl | hst
    · exact hbody.1
    · exact isLoopFree_of_mem hbody.2 hst

/-- Making an object goes one level deeper. -/
theorem ends_construct (h : ∀ fewer < levels, EndsWithin cx fewer) (c : ClassDef) :
    Ends (State.Within cx levels) fun n => construct cx n c := by
  refine .of_succ (.bind (ends_deeper fun fewer hfewer => ends_inBlock ?_) fun fields => ?_)
  · have hfewer := h fewer hfewer
    exact ends_memberValues (ends_initialValue hfewer.evaluate hfewer.construct) c.fields ∅
  · exact .of_basic (.allocate _) fun _ _ _ hs hrun => by cases hrun; exact hs.of_shape rfl

/-- A call goes one level deeper, once its arguments are evaluated. -/
theorem ends_invoke (h : ∀ fewer < levels, EndsWithin cx fewer) {routine : Routine}
    (hroutine : routine.isLoopFree = true) {arguments : List Expr}
    (harguments : ∀ e ∈ arguments, Ends (State.Within cx levels) fun n => evaluate cx n e)
    (receiver : Option Ref) :
    Ends (State.Within cx levels) fun n => invoke cx n routine arguments receiver := by
  have hbody : ∀ values bindings, ∀ fewer < levels, Ends (State.Within cx fewer) fun n =>
      callBody cx (callsAt cx n) routine values receiver bindings := by
    intro values bindings fewer hfewer
    refine .bind (.of_basic (basic_bindCall cx routine values receiver) (within_bindCall ..))
      fun _ => ?_
    refine .bind (ends_executeAll fun st hst => ?_) fun _ =>
      .of_basic (basic_finalValues bindings receiver) (keeps_finalValues bindings receiver)
    exact (h fewer hfewer).execute st (Stmt.isLoopFree_of_mem hroutine hst)
  refine .of_succ (.bind (ends_evaluateAll harguments) fun values => .bind .ofExcept fun _ => ?_)
  refine .bind (.tryReads _) fun bindings => ?_
  refine .bind (ends_deeper fun fewer hfewer => ends_inCall (hbody values bindings fewer hfewer)) ?_
  rintro ⟨⟨written, fields⟩, returned⟩
  have hback : Ends (State.Within cx levels) fun _ => do
      Run.ofExcept (routine.checkResult returned)
      writeBack (bindings.zip written)
      return returned :=
    .bind .ofExcept fun _ =>
      .bind (.of_basic (basic_writeBack _) (keeps_writeBack within_put _)) fun _ => .pure _
  cases receiver with
  | none => exact hback
  | some ref => exact .bind (.modify fun _ hs => hs.of_shape rfl) fun _ => hback

section

variable {arguments : List Expr} {evaluate : Nat → Expr → Run Value}
  {invoke : Nat → Routine → List Expr → Option Ref → Run Value}

/-- A call of a native ends if evaluating its arguments does. -/
theorem ends_callNative (native : Native)
    (harguments : ∀ e ∈ arguments, Ends (State.Within cx levels) fun n => evaluate n e) :
    Ends (State.Within cx levels) fun n => callNative cx (evaluate n) native arguments :=
  .bind (ends_evaluateAll harguments) fun _ => .bind (.tryReads _) fun _ =>
    .bind (.modify fun _ hs => hs.of_shape rfl) fun _ => .pure _

/-- A call of a function ends if evaluating its arguments and calling routines
do. -/
theorem ends_callFunction
    (harguments : ∀ e ∈ arguments, Ends (State.Within cx levels) fun n => evaluate n e)
    (hinvoke : ∀ routine, cx.program.Defines routine → ∀ receiver,
      Ends (State.Within cx levels) fun n => invoke n routine arguments receiver) (name : String) :
    Ends (State.Within cx levels) fun n =>
      callFunction cx (evaluate n) (invoke n) name arguments := by
  unfold callFunction
  split
  · split
    · exact .pure _
    · exact .fail _
  · refine .reads_bind fun s hs => ?_
    rcases hmethod : s.environment.method? name with _ | routine
    · refine .bind (.tryReads _) fun native => ?_
      rcases native with _ | native
      · exact .fail _
      · exact ends_callNative native harguments
    · exact hinvoke routine (hs.routines.method? hmethod) none

/-- A dotted call ends if evaluating its arguments and calling routines do. -/
theorem ends_callMember
    (harguments : ∀ e ∈ arguments, Ends (State.Within cx levels) fun n => evaluate n e)
    (hinvoke : ∀ routine, cx.program.Defines routine → ∀ receiver,
      Ends (State.Within cx levels) fun n => invoke n routine arguments receiver)
    (head : String) (path : List String) :
    Ends (State.Within cx levels) fun n =>
      callMember cx (evaluate n) (invoke n) head path arguments := by
  refine .bind (.tryReads _) fun native => ?_
  rcases native with _ | native
  · refine .bind (.tryReads _) fun value => ?_
    split
    · refine .bind (.tryReads _) fun receiver => ?_
      split
      · next hmethod => exact hinvoke _ (Context.defines_of_methodOf? hmethod) _
      · exact .fail _
    · exact .fail _
  · exact ends_callNative native harguments

end

/-! ## Expressions and statements -/

/-- The routines of a program without loops are without loops. -/
theorem Program.isLoopFree_of_defines {p : Program} (h : p.isLoopFree = true) {r : Routine}
    (hr : p.Defines r) : r.isLoopFree = true := by
  rw [isLoopFree, Bool.and_eq_true] at h
  rcases hr with hfunction | ⟨c, hc, hmethod⟩
  · exact List.all_eq_true.mp h.1 r hfunction
  · exact List.all_eq_true.mp (List.all_eq_true.mp h.2 c hc) r hmethod

/-- An expression goes to its parts, and to calls with some of these as
arguments. -/
theorem ends_evaluate (hprogram : cx.program.isLoopFree = true)
    (h : ∀ fewer < levels, EndsWithin cx fewer) :
    ∀ e : Expr, Ends (State.Within cx levels) fun n => evaluate cx n e
  | .integer _ | .decimal _ _ _ | .string _ | .boolean _ => .of_succ (.pure _)
  | .var name => by
    refine .of_succ (.bind (.tryReads _) fun value => ?_)
    rcases value with _ | value
    · dsimp only
      split
      · exact .pure _
      · exact .fail _
    · exact .pure _
  | .member _ _ => .of_succ (.tryReads _)
  | .not operand => .of_succ (.bind (ends_evaluate hprogram h operand) fun _ => .pure _)
  | .logic .or left right => by
    refine .of_succ (.bind (ends_evaluate hprogram h left) fun l => ?_)
    split
    · exact .pure _
    · exact .bind (ends_evaluate hprogram h right) fun _ => .pure _
  | .logic .and left right =>
    .of_succ (.bind (ends_evaluate hprogram h left) fun _ =>
      .bind (ends_evaluate hprogram h right) fun _ => .pure _)
  | .binary _ left right =>
    .of_succ (.bind (ends_evaluate hprogram h left) fun _ =>
      .bind (ends_evaluate hprogram h right) fun _ => .bind .ofExcept fun _ => .ofExcept)
  | .relation _ _ left right =>
    .of_succ (.bind (ends_evaluate hprogram h left) fun _ =>
      .bind (ends_evaluate hprogram h right) fun _ => .bind .ofExcept fun _ => .ofExcept)
  | .call (.var name) arguments =>
    have harguments := fun e (_ : e ∈ arguments) => ends_evaluate hprogram h e
    .of_succ (ends_callFunction harguments
      (fun _ hr => ends_invoke h (Program.isLoopFree_of_defines hprogram hr) harguments) name)
  | .call (.member head path) arguments =>
    have harguments := fun e (_ : e ∈ arguments) => ends_evaluate hprogram h e
    .of_succ (ends_callMember harguments
      (fun _ hr => ends_invoke h (Program.isLoopFree_of_defines hprogram hr) harguments) head path)
  | .methodCall head path arguments =>
    have harguments := fun e (_ : e ∈ arguments) => ends_evaluate hprogram h e
    .of_succ (ends_callMember harguments
      (fun _ hr => ends_invoke h (Program.isLoopFree_of_defines hprogram hr) harguments) head path)

/-- An assignment ends if constructing does. -/
theorem ends_assign (hconstruct : ∀ c, Ends (State.Within cx levels) fun n => construct cx n c)
    (target : Target) (value : Value) :
    Ends (State.Within cx levels) fun n => assign cx (construct cx n) target value := by
  have hwrite : ∀ v, Ends (State.Within cx levels) fun _ => Run.write target v := fun v =>
    .of_basic (.write target v) (.write within_put target v)
  cases value with
  | cls name =>
    refine .bind (ends_constructNamed hconstruct name) fun value => ?_
    cases target with
    | var x =>
      refine .bind (.tryReads _) fun known => ?_
      split
      · exact hwrite value
      · exact .of_basic (.declare x value) (within_declare x value)
    | member head path => exact hwrite value
  | _ => exact hwrite _

/-- Without loops a statement goes to its parts only. -/
theorem ends_execute (hevaluate : ∀ e, Ends (State.Within cx levels) fun n => evaluate cx n e)
    (hconstruct : ∀ c, Ends (State.Within cx levels) fun n => construct cx n c) :
    ∀ st : Stmt, st.isLoopFree = true →
      Ends (State.Within cx levels) fun n => execute cx n st
  | .declare d, _ =>
    .of_succ (.bind (ends_initialValue hevaluate hconstruct d) fun value =>
      .of_basic (.declare d.name value) (within_declare d.name value))
  | .assign target e, _ =>
    .of_succ (.bind (hevaluate e) fun value => ends_assign hconstruct target value)
  | .call e, _ => .of_succ (.bind (hevaluate e) fun _ => .pure _)
  | .ret e, _ => .of_succ (.bind (hevaluate e) fun _ => .modify fun _ hs => hs.of_shape rfl)
  | .ifThen condition body, hst => by
    rw [Stmt.isLoopFree] at hst
    refine .of_succ (.bind (hevaluate condition) fun value => ?_)
    split
    · exact ends_executeBlock fun st hmem =>
        ends_execute hevaluate hconstruct st (Stmt.isLoopFree_of_mem hst hmem)
    · exact .pure _
  | .ifElse condition body otherwise, hst => by
    rw [Stmt.isLoopFree, Bool.and_eq_true] at hst
    refine .of_succ (.bind (hevaluate condition) fun value => ?_)
    split
    · exact ends_executeBlock fun st hmem =>
        ends_execute hevaluate hconstruct st (Stmt.isLoopFree_of_mem hst.1 hmem)
    · exact ends_executeBlock fun st hmem =>
        ends_execute hevaluate hconstruct st (Stmt.isLoopFree_of_mem hst.2 hmem)
  | .block body, hst => by
    rw [Stmt.isLoopFree] at hst
    exact .of_succ (ends_executeBlock fun st hmem =>
      ends_execute hevaluate hconstruct st (Stmt.isLoopFree_of_mem hst hmem))

/-- **Everything that can be called comes to an end**, however many levels are
left. -/
theorem endsWithin (hprogram : cx.program.isLoopFree = true) (levels : Nat) :
    EndsWithin cx levels := by
  induction levels using Nat.strongRecOn with
  | ind levels ih =>
    have hevaluate := ends_evaluate hprogram ih
    have hconstruct := ends_construct ih
    exact ⟨hevaluate, hconstruct, ends_execute hevaluate hconstruct⟩

/-- **Programs without loops come to an end**: with a value or with an error,
even if their routines and constructions go round in circles. -/
theorem loop_free_programs_end {p : Program} (h : p.isLoopFree = true) (limit : Nat)
    (natives : List Native) : ∃ r s, RunsTo ⟨p, limit⟩ (.ready p natives) r s := by
  have hready : (State.ready p natives).Within ⟨p, limit⟩ limit :=
    ⟨Nat.le_add_left _ _, hasRoutinesOf_ready p natives⟩
  rcases hmain : p.functions.get? "main" with _ | main
  · refine ⟨.error .mainNotDeclared, .ready p natives, 0, ?_⟩
    rw [runMain, hmain]
    rfl
  · have hlevels : ∀ fewer < limit, EndsWithin ⟨p, limit⟩ fewer := fun fewer _ => endsWithin h fewer
    have hdefines : p.Defines main := .inl (Table.mem_values_of_get? hmain)
    obtain ⟨r, s, -, n, hn⟩ := ends_invoke hlevels (Program.isLoopFree_of_defines h hdefines)
      (List.forall_mem_nil _) none hready
    refine ⟨r, s, n, ?_⟩
    rw [runMain, hmain]
    exact hn n (Nat.le_refl n)

/-- A function that makes an object, the field of which starts out with a call
of the function. -/
def inCircles : Program where
  functions := .ofList [
    ("main", { returns := .void, name := "main", parameters := [], body := [
      .declare { type := .cls "C", name := "c", initial := none }] })]
  classes := .ofList [("C", {
    name := "C"
    fields := [{ type := .integer, name := "f", initial := some (.call (.var "main") []) }]
    methods := [] })]

/-- A program that calls itself in circles until the limit ends it. -/
theorem loop_free_programs_end_inCircles :
    inCircles.isLoopFree = true ∧ ∃ r s, RunsTo ⟨inCircles, 4⟩ (.ready inCircles []) r s ∧
      r = .error (.callDepthExceeded 4) := by
  obtain ⟨r, s, hrun⟩ := loop_free_programs_end (p := inCircles) (by decide) 4 []
  obtain ⟨t, ht⟩ : ∃ t, RunsTo ⟨inCircles, 4⟩ (.ready inCircles [])
      (.error (.callDepthExceeded 4)) t := ⟨_, 20, rfl⟩
  exact ⟨by decide, r, s, hrun, (ht.unique hrun).1⟩

end ClassLang
