import ClassLang.Proofs.Spec
import ClassLang.Interpreter

/-!
# Computations that call nothing

Most of what a step does calls none of the functions that run a program: it
looks something up, checks it, declares or writes it. Such a computation always
has an outcome, leaves the depth alone, only adds to the output, and never
finds calls nested too deeply (`Run.Basic`). The last point is what keeps one
error from being taken for another: `Shallow` says it of each check and each
look-up.
-/

namespace ClassLang

/-- Not the report of calls that are nested too deeply. -/
def Shallow {α : Type} (r : Except RuntimeError α) : Prop :=
  ∀ limit, r ≠ .error (.callDepthExceeded limit)

/-- A value is no report of deep nesting. -/
theorem shallow_ok {α : Type} (a : α) : Shallow (.ok a : Except RuntimeError α) := by
  rintro limit ⟨⟩

/-- The output of one state goes on from that of another. -/
def State.Continues (s s' : State) : Prop := ∃ more, s'.output = s.output ++ more

theorem State.Continues.refl (s : State) : s.Continues s := ⟨"", by simp⟩

/-- What goes on from what goes on goes on from the first. -/
theorem State.Continues.trans {s t u : State} (h₁ : s.Continues t) (h₂ : t.Continues u) :
    s.Continues u := by
  obtain ⟨a, ha⟩ := h₁
  obtain ⟨b, hb⟩ := h₂
  exact ⟨a ++ b, by rw [hb, ha, String.append_assoc]⟩

namespace Run

variable {α β : Type}

/-- A computation that calls nothing. -/
def Basic (m : Run α) : Prop :=
  ∀ s, ∃ r s', m s = some (r, s') ∧ s'.depth = s.depth ∧ s.Continues s' ∧ Shallow r

namespace Basic

/-- One after the other, two computations that call nothing still call nothing. -/
theorem bind {m : Run α} {f : α → Run β} (hm : m.Basic) (hf : ∀ a, (f a).Basic) :
    (m >>= f).Basic := by
  intro s
  obtain ⟨r, t, hmt, hdepth, hcontinues, hshallow⟩ := hm s
  rcases r with e | a
  · refine ⟨.error e, t, bind_of_error hmt, hdepth, hcontinues, ?_⟩
    rintro limit ⟨⟩
    exact hshallow limit rfl
  · obtain ⟨r', u, hfu, hdepth', hcontinues', hshallow'⟩ := hf a t
    exact ⟨r', u, (bind_of_ok hmt).trans hfu, hdepth'.trans hdepth,
      hcontinues.trans hcontinues', hshallow'⟩

/-- A check calls nothing. It has to be one that does not speak of nesting. -/
theorem ofExcept {x : Except RuntimeError α} (h : Shallow x) : (Run.ofExcept x).Basic :=
  fun s => ⟨x, s, rfl, rfl, .refl s, h⟩

theorem pure (a : α) : (Pure.pure a : Run α).Basic :=
  ofExcept (shallow_ok a)

theorem fail {e : RuntimeError} (h : Shallow (.error e : Except RuntimeError α)) :
    (Run.fail e : Run α).Basic :=
  ofExcept h

/-- A look-up that cannot fail calls nothing. -/
theorem reads (f : State → α) : (Run.reads f).Basic :=
  fun s => ⟨.ok (f s), s, rfl, rfl, .refl s, shallow_ok _⟩

/-- Nor does one that can, as long as it does not speak of nesting. -/
theorem tryReads {f : State → Except RuntimeError α} (h : ∀ s, Shallow (f s)) :
    (Run.tryReads f).Basic :=
  fun s => ⟨f s, s, rfl, rfl, .refl s, h s⟩

/-- A change calls nothing if it leaves the depth alone and takes no output back. -/
theorem modify {f : State → State} (hdepth : ∀ s, (f s).depth = s.depth)
    (houtput : ∀ s : State, s.Continues (f s)) : (Run.modify f).Basic :=
  fun s => ⟨.ok (), f s, rfl, hdepth s, houtput s, shallow_ok _⟩

theorem print (text : String) : (Run.print text).Basic :=
  modify (fun _ => rfl) fun _ => ⟨text, rfl⟩

/-- Making an object out of values that are there calls nothing. -/
theorem allocate (object : Object) : (Run.allocate object).Basic :=
  fun s => ⟨_, _, rfl, rfl, .refl s, shallow_ok _⟩

end Basic

end Run

/-! ## Checks and look-ups report other errors -/

theorem shallow_unsupported {α : Type} (operator : String) (operand : Value) :
    Shallow (unsupported operator operand : Except RuntimeError α) := by
  rintro limit ⟨⟩

/-- Operands of different types are reported as that. -/
theorem shallow_checkOperands (e : Expr) (l r : Value) : Shallow (checkOperands e l r) := by
  unfold checkOperands
  split <;> rintro limit ⟨⟩

/-- A result out of range is reported as that. -/
theorem shallow_exactly (e : Expr) (n : Option Integer) : Shallow (exactly e n) := by
  cases n <;> rintro limit ⟨⟩

/-- Operators do not report deep nesting, whatever their operands are. -/
theorem BinaryOp.shallow_apply (op : BinaryOp) (e : Expr) (l r : Value) :
    Shallow (op.apply e l r) := by
  unfold apply
  split
  case h_4 | h_6 | h_8 => exact shallow_exactly _ _
  case h_10 | h_11 => split <;> rintro limit ⟨⟩
  case h_12 => exact shallow_unsupported _ _
  all_goals exact shallow_ok _

theorem RelationOp.shallow_apply (op : RelationOp) (l r : Value) : Shallow (op.apply l r) := by
  unfold apply
  split
  case h_5 => exact shallow_unsupported _ _
  all_goals exact shallow_ok _

/-- A class that is missing is reported as that. -/
theorem Context.shallow_classNamed (cx : Context) (name : String) :
    Shallow (cx.classNamed name) := by
  rw [classNamed]
  split <;> rintro limit ⟨⟩

namespace Routine

theorem shallow_checkTypes (routine : Routine) :
    ∀ (parameters : List Parameter) (values : List Value),
      Shallow (routine.checkTypes parameters values)
  | [], _ => by rintro limit ⟨⟩
  | _ :: _, [] => by rintro limit ⟨⟩
  | p :: parameters, v :: values => by
    rw [checkTypes]
    split
    · exact shallow_checkTypes routine parameters values
    · rintro limit ⟨⟩

/-- The checks of arguments report their number or a type. -/
theorem shallow_checkArguments (routine : Routine) (values : List Value) :
    Shallow (routine.checkArguments values) := by
  rw [checkArguments]
  split
  · exact routine.shallow_checkTypes _ _
  · rintro limit ⟨⟩

theorem shallow_checkResult (routine : Routine) (result : Value) :
    Shallow (routine.checkResult result) := by
  rw [checkResult]
  split <;> rintro limit ⟨⟩

end Routine

/-- A chain of checks is shallow if each of them is. -/
theorem Shallow.bind {α β : Type} {x : Except RuntimeError α} {f : α → Except RuntimeError β}
    (hx : Shallow x) (hf : ∀ a, Shallow (f a)) : Shallow (x >>= f) := by
  rcases x with e | a
  · rintro limit ⟨⟩
    exact hx limit rfl
  · exact hf a

theorem Environment.shallow_get (e : Environment) (name : String) : Shallow (e.get name) := by
  rw [get]
  split <;> rintro limit ⟨⟩

/-- On the way along a path nothing is reported but what is missing there. -/
theorem Heap.shallow_follow (h : Heap) :
    ∀ (path : List String) (name : String) (value : Value), Shallow (h.follow name value path)
  | [], _, _ => shallow_ok _
  | segment :: path, name, value => by
    unfold follow
    split
    · dsimp only
      split
      · exact h.shallow_follow path _ _
      · rintro limit ⟨⟩
    · rintro limit ⟨⟩

namespace State

variable (s : State)

theorem shallow_member (head : String) (path : List String) : Shallow (s.member head path) :=
  .bind (s.environment.shallow_get head) fun _ => s.heap.shallow_follow path head _

theorem shallow_objectAt (head : String) (path : List String) : Shallow (s.objectAt head path) := by
  refine .bind (s.shallow_member head path) fun value => ?_
  split <;> rintro limit ⟨⟩

theorem shallow_variableSlot (name : String) : Shallow (s.variableSlot name) := by
  rw [variableSlot]
  split <;> rintro limit ⟨⟩

/-- Targets are resolved by look-ups alone. -/
theorem shallow_slot (target : Target) : Shallow (s.slot target) := by
  unfold slot
  split
  · exact s.shallow_variableSlot _
  · split
    · exact s.shallow_variableSlot _
    · refine .bind (s.shallow_objectAt _ _) fun owner => ?_
      split <;> rintro limit ⟨⟩

end State

/-! ## Declaring and writing -/

namespace Run

namespace Basic

/-- A declaration calls nothing: it fails only if the name is taken. -/
theorem declare (name : String) (value : Value) : (Run.declare name value).Basic := by
  intro s
  simp only [Run.declare, Run.tryModify]
  rcases hdeclare : s.environment.declare name value with e | e
  · refine ⟨.error e, s, rfl, rfl, .refl s, ?_⟩
    unfold Environment.declare Scope.declare at hdeclare
    split at hdeclare <;> split at hdeclare <;> cases hdeclare <;> rintro limit ⟨⟩
  · exact ⟨.ok (), _, rfl, rfl, ⟨"", by simp⟩, shallow_ok _⟩

/-- Declarations one after the other call nothing. -/
theorem declareAll : ∀ entries : List (String × Value), (Run.declareAll entries).Basic
  | [] => pure _
  | (name, value) :: rest => bind (declare name value) fun _ => declareAll rest

theorem declareMethods (routines : List Routine) : (Run.declareMethods routines).Basic :=
  modify (fun _ => rfl) fun _ => ⟨"", by simp⟩

theorem valuesOf : ∀ names : List String, (Run.valuesOf names).Basic
  | [] => pure _
  | _ :: rest =>
    bind (tryReads fun s => s.environment.shallow_get _) fun _ =>
      bind (valuesOf rest) fun _ => pure _

/-- Writing to a target resolves it and fills the slot, and calls nothing. -/
theorem write (target : Target) (value : Value) : (Run.write target value).Basic :=
  bind (tryReads fun s => s.shallow_slot target) fun slot =>
    modify (fun s => by cases slot <;> rfl) fun s => ⟨"", by cases slot <;> simp [State.put]⟩

end Basic

end Run

/-- Filling the scope of a call calls nothing. -/
theorem basic_bindCall (cx : Context) (routine : Routine) (values : List Value)
    (receiver : Option Ref) : (bindCall cx routine values receiver).Basic := by
  unfold bindCall
  cases receiver with
  | none => exact .bind (.pure _) fun _ => .declareAll _
  | some ref =>
    exact .bind (.reads _) fun _ => .bind (.declareAll _) fun _ =>
      .bind (.declareMethods _) fun _ => .declareAll _

/-- Reading what goes back to the caller calls nothing. -/
theorem basic_finalValues (bindings : List Binding) (receiver : Option Ref) :
    (finalValues bindings receiver).Basic := by
  refine .bind (.valuesOf _) fun written => ?_
  cases receiver with
  | none => exact .pure _
  | some ref => exact .bind (.reads _) fun _ => .bind (.valuesOf _) fun _ => .pure _

/-- Writing it back calls nothing. -/
theorem basic_writeBack : ∀ written : List (Binding × Value), (writeBack written).Basic
  | [] => .pure _
  | (b, value) :: rest => .bind (.write b.target value) fun _ => basic_writeBack rest

end ClassLang
