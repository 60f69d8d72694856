import Mathlib.Data.List.Forall2
import ClassLang.Proofs.Spec
import ClassLang.Interpreter

/-!
# What the smaller steps keep

The steps that run no statement open no scope and declare nothing of their own.
So they keep whatever the functions they call keep, as long as it survives
output, and in the case of the steps that write, filling a slot.
-/

namespace ClassLang

open Run (Keeps)

variable {P : State → Prop} {cx : Context}

/-- The functions that give values keep a property of states. -/
structure Calls.Keep (P : State → Prop) (calls : Calls) : Prop where
  /-- evaluation keeps it -/
  evaluate : ∀ e, Keeps P (calls.evaluate e)
  /-- making an object keeps it -/
  construct : ∀ c, Keeps P (calls.construct c)
  /-- a call keeps it -/
  invoke : ∀ routine arguments receiver, Keeps P (calls.invoke routine arguments receiver)

/-! ## Writing -/

/-- Writing to a target keeps what filling a slot keeps. -/
theorem Run.Keeps.write (h : ∀ s slot value, P s → P (s.put slot value)) (target : Target)
    (value : Value) : Keeps P (Run.write target value) :=
  .bind (.tryReads _) fun slot => .modify fun s => h s slot value

/-- Writing values back does so too, from left to right. -/
theorem keeps_writeBack (h : ∀ s slot value, P s → P (s.put slot value)) :
    ∀ written : List (Binding × Value), Keeps P (writeBack written)
  | [] => .pure _
  | (b, value) :: rest => .bind (.write h b.target value) fun _ => keeps_writeBack h rest

/-! ## Values -/

/-- Evaluating expressions keeps what evaluating each of them keeps. -/
theorem keeps_evaluateAll {evaluate : Expr → Run Value} (h : ∀ e, Keeps P (evaluate e)) :
    ∀ es : List Expr, Keeps P (evaluateAll evaluate es)
  | [] => .pure _
  | e :: rest => .bind (h e) fun _ => .bind (keeps_evaluateAll h rest) fun _ => .pure _

/-- Making an object by the name of its class keeps what making it keeps. -/
theorem keeps_constructNamed {construct : ClassDef → Run Ref}
    (h : ∀ c, Keeps P (construct c)) (name : String) :
    Keeps P (constructNamed cx construct name) :=
  .bind (.ofExcept _) fun c => .bind (h c) fun _ => .pure _

/-- What a declaration starts out with is evaluated or made. -/
theorem keeps_initialValue {evaluate : Expr → Run Value} {construct : ClassDef → Run Ref}
    (hevaluate : ∀ e, Keeps P (evaluate e)) (hconstruct : ∀ c, Keeps P (construct c))
    (d : Declaration) : Keeps P (initialValue cx evaluate construct d) := by
  have hnamed : ∀ name, Keeps P (constructNamed cx construct name) :=
    keeps_constructNamed hconstruct
  have hcheck : ∀ value : Value, Keeps P (if value.type = d.type then pure value
      else Run.fail (.invalidInitialisation d.name d.type value.type)) := by
    intro value
    split
    · exact .pure _
    · exact .fail _
  rw [initialValue]
  rcases hinitial : d.initial with _ | e
  · cases d.type with
    | cls name => exact hnamed name
    | _ => exact .pure _
  · refine .bind (hevaluate e) fun value => ?_
    cases value with
    | cls name => exact .bind (hnamed name) hcheck
    | _ => exact .bind (.pure _) hcheck

/-! ## Calls -/

/-- What goes back to the caller is only looked up. -/
theorem keeps_finalValues (bindings : List Binding) (receiver : Option Ref) :
    Keeps P (finalValues bindings receiver) := by
  refine .bind (.valuesOf _) fun written => ?_
  cases receiver with
  | none => exact .pure _
  | some ref => exact .bind (.reads _) fun _ => .bind (.valuesOf _) fun _ => .pure _

/-- The value that a variable is reported to have is the one it has. -/
theorem Environment.get_eq_ok {e : Environment} {name : String} {value : Value}
    (h : e.get name = .ok value) : e.lookup? name = some value := by
  rw [get] at h
  split at h <;> cases h
  assumption

/-- Looking variables up changes nothing and gives what each of them holds. -/
theorem Run.valuesOf_eq_ok {names : List String} {values : List Value} {s s' : State}
    (hrun : Run.valuesOf names s = some (.ok values, s')) :
    s' = s ∧
      List.Forall₂ (fun name v => s.environment.lookup? name = some v) names values := by
  induction names generalizing values s with
  | nil =>
    cases hrun
    exact ⟨rfl, .nil⟩
  | cons name names ih =>
    obtain ⟨value, t, hvalue, hrun⟩ := Run.bind_eq_ok hrun
    obtain ⟨rest, u, hrest, hpure⟩ := Run.bind_eq_ok hrun
    cases hpure
    obtain ⟨hget, rfl⟩ := Prod.mk.inj (Option.some.inj hvalue)
    obtain ⟨rfl, hall⟩ := ih hrest
    exact ⟨rfl, .cons (Environment.get_eq_ok hget) hall⟩

/-- The names of the fields of the object that a call is on. -/
def Heap.receiverFields (h : Heap) (receiver : Option Ref) : List String :=
  receiver.elim [] fun ref => (h.fields ref).names

/-- A call hands back what names mean in the end: parameters, and the fields of
the object it is on. -/
theorem finalValues_eq_ok {bindings : List Binding} {receiver : Option Ref}
    {written : List Value} {fields : List (String × Value)} {s s' : State}
    (hrun : finalValues bindings receiver s = some (.ok (written, fields), s')) :
    s' = s ∧
      List.Forall₂ (fun b v => s.environment.lookup? b.parameter = some v) bindings written ∧
      ∃ values, fields = (s.heap.receiverFields receiver).zip values ∧
        List.Forall₂ (fun name v => s.environment.lookup? name = some v)
          (s.heap.receiverFields receiver) values := by
  obtain ⟨parameters, t, hparameters, hrest⟩ := Run.bind_eq_ok hrun
  cases receiver with
  | none =>
    cases hrest
    obtain ⟨rfl, hparameters⟩ := Run.valuesOf_eq_ok hparameters
    exact ⟨rfl, List.forall₂_map_left_iff.mp hparameters, [], rfl, .nil⟩
  | some ref =>
    obtain ⟨names, u, hnames, hrest⟩ := Run.bind_eq_ok hrest
    obtain ⟨values, w, hvalues, hpure⟩ := Run.bind_eq_ok hrest
    cases hpure
    cases hnames
    obtain ⟨rfl, hparameters⟩ := Run.valuesOf_eq_ok hparameters
    obtain ⟨rfl, hall⟩ := Run.valuesOf_eq_ok hvalues
    exact ⟨rfl, List.forall₂_map_left_iff.mp hparameters, values, rfl, hall⟩

section

variable {evaluate : Expr → Run Value} {invoke : Routine → List Expr → Option Ref → Run Value}

/-- A native is called with evaluated arguments, and prints. -/
theorem keeps_callNative (hprint : ∀ text, Keeps P (Run.print text))
    (hevaluate : ∀ e, Keeps P (evaluate e)) (native : Native) (arguments : List Expr) :
    Keeps P (callNative cx evaluate native arguments) :=
  .bind (keeps_evaluateAll hevaluate arguments) fun _ =>
    .bind (.reads _) fun _ => .bind (hprint _) fun _ => .pure _

/-- A call by a name without dots keeps what routines and natives keep. -/
theorem keeps_callFunction (hprint : ∀ text, Keeps P (Run.print text))
    (hevaluate : ∀ e, Keeps P (evaluate e))
    (hinvoke : ∀ routine arguments receiver, Keeps P (invoke routine arguments receiver))
    (name : String) (arguments : List Expr) :
    Keeps P (callFunction cx evaluate invoke name arguments) := by
  rw [callFunction]
  split
  · split
    · exact .pure _
    · exact .fail _
  · refine .bind (.reads _) fun routine => ?_
    rcases routine with _ | routine
    · refine .bind (.reads _) fun native => ?_
      rcases native with _ | native
      · exact .fail _
      · exact keeps_callNative hprint hevaluate native arguments
    · exact hinvoke routine arguments none

/-- A call by a dotted name does so as well. -/
theorem keeps_callMember (hprint : ∀ text, Keeps P (Run.print text))
    (hevaluate : ∀ e, Keeps P (evaluate e))
    (hinvoke : ∀ routine arguments receiver, Keeps P (invoke routine arguments receiver))
    (head : String) (path : List String) (arguments : List Expr) :
    Keeps P (callMember cx evaluate invoke head path arguments) := by
  refine .bind (.reads _) fun native => ?_
  rcases native with _ | native
  · refine .bind (.reads _) fun value => ?_
    split
    · refine .bind (.tryReads _) fun receiver => ?_
      split
      · exact hinvoke _ arguments _
      · exact .fail _
    · exact .fail _
  · exact keeps_callNative hprint hevaluate native arguments

end

/-! ## Expressions -/

/-- One step of evaluation keeps what the calls in it keep. -/
theorem keeps_evaluateStep {calls : Calls} (hprint : ∀ text, Keeps P (Run.print text))
    (h : calls.Keep P) : ∀ e : Expr, Keeps P (evaluateStep cx calls e)
  | .integer _ | .decimal _ _ _ | .string _ | .boolean _ => .pure _
  | .var name => by
    refine .bind (.reads _) fun value => ?_
    rcases value with _ | value
    · dsimp only
      split
      · exact .pure _
      · exact .fail _
    · exact .pure _
  | .member _ _ => .tryReads _
  | .not operand => .bind (h.evaluate operand) fun _ => .pure _
  | .logic .or left right => by
    refine .bind (h.evaluate left) fun l => ?_
    split
    · exact .pure _
    · exact .bind (h.evaluate right) fun _ => .pure _
  | .logic .and left right =>
    .bind (h.evaluate left) fun _ => .bind (h.evaluate right) fun _ => .pure _
  | .binary _ left right =>
    .bind (h.evaluate left) fun _ => .bind (h.evaluate right) fun _ =>
      .bind (.ofExcept _) fun _ => .ofExcept _
  | .relation _ _ left right =>
    .bind (h.evaluate left) fun _ => .bind (h.evaluate right) fun _ =>
      .bind (.ofExcept _) fun _ => .ofExcept _
  | .call (.var name) arguments => keeps_callFunction hprint h.evaluate h.invoke name arguments
  | .call (.member head path) arguments =>
    keeps_callMember hprint h.evaluate h.invoke head path arguments
  | .methodCall head path arguments =>
    keeps_callMember hprint h.evaluate h.invoke head path arguments

end ClassLang
