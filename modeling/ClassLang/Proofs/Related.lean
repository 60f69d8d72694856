import ClassLang.Proofs.Basic
import ClassLang.Session

/-!
# Comparing two interpreters

Many a question about runs compares two of them: with more fuel, with another
limit, under observation. The interpreters that do them are built alike, out of
the same steps. So a relation between computations that respects the ways of
building them (`Run.Congruence`) holds between whole steps as soon as it holds
between the functions that the steps call (`Calls.Related`).

All theorems below say this, each for one step.
-/

namespace ClassLang

namespace Run

variable {α β : Type}

/-! ## Opening and closing -/

/-- Runs a computation between something that is opened and closed again. -/
def around (opening closing : State → State) (wrap : α → State → β) (m : Run α) : Run β :=
  fun s =>
    match m (opening s) with
    | none => none
    | some (r, t) => some (r.map (wrap · t), closing t)

section

variable {opening closing : State → State} {wrap : α → State → β} {m : Run α} {s t : State}

/-- What is opened for a body without an outcome is never closed. -/
theorem around_of_none (h : m (opening s) = none) : around opening closing wrap m s = none := by
  rw [around, h]

/-- The outcome of the body is the outcome of the whole, in the state that is left
by closing. -/
theorem around_of_some {r : Except RuntimeError α} (h : m (opening s) = some (r, t)) :
    around opening closing wrap m s = some (r.map (wrap · t), closing t) := by
  rw [around, h]

end

/-- A scope is opened and closed around its body. -/
theorem inBlock_eq_around (m : Run α) :
    inBlock m = around (fun s => { s with environment := s.environment.startBlock })
      (fun s => { s with environment := s.environment.endBlock }) (fun a _ => a) m := by
  funext s
  rw [inBlock, around]
  rcases m { s with environment := s.environment.startBlock } with _ | ⟨_ | _, _⟩ <;> rfl

/-- So is the scope of a call, which gives what was returned beside the value. -/
theorem inCall_eq_around (m : Run α) :
    inCall m = around (fun s => { s with environment := s.environment.startBlock })
      (fun s => { s with environment := s.environment.leaveCall.2 })
      (fun a s => (a, s.environment.leaveCall.1)) m := rfl

/-- At the limit there is no going deeper. -/
theorem deeper_of_le {limit : Nat} {s : State} (m : Run α) (h : limit ≤ s.depth) :
    deeper limit m s = some (.error (.callDepthExceeded limit), s) :=
  if_pos h

/-- Below it, a level is gone down and come up again around the body. -/
theorem deeper_of_lt {limit : Nat} {s : State} (m : Run α) (h : s.depth < limit) :
    deeper limit m s = around (fun s => { s with depth := s.depth + 1 })
      (fun s => { s with depth := s.depth - 1 }) (fun a _ => a) m s := by
  rw [deeper, if_neg (Nat.not_le_of_lt h), around]
  rcases m { s with depth := s.depth + 1 } with _ | ⟨_ | _, _⟩ <;> rfl

/-- A change that has to do with neither depth nor output. -/
def ScopesOnly (f : State → State) : Prop :=
  ∀ s, (f s).depth = s.depth ∧ (f s).output = s.output

/-! ## Respecting how computations are built -/

/-- A relation between computations that respects how they are built. -/
structure Congruence (R : {α : Type} → Run α → Run α → Prop) : Prop where
  /-- what calls nothing is the same on both sides -/
  basic : ∀ {α : Type} {m : Run α}, m.Basic → R m m
  /-- sequencing -/
  bind : ∀ {α β : Type} {m m' : Run α} {f f' : α → Run β}, R m m' → (∀ a, R (f a) (f' a)) →
    R (m >>= f) (m' >>= f')
  /-- opening and closing a scope -/
  around : ∀ {α β : Type} {opening closing : State → State} {wrap : α → State → β}
    {m m' : Run α}, ScopesOnly opening → ScopesOnly closing → R m m' →
    R (Run.around opening closing wrap m) (Run.around opening closing wrap m')

end Run

/-- Whatever can be called on one side is related to what can be called on the
other. -/
structure Calls.Related (R : {α : Type} → Run α → Run α → Prop) (calls calls' : Calls) :
    Prop where
  /-- evaluation -/
  evaluate : ∀ e, R (calls.evaluate e) (calls'.evaluate e)
  /-- execution -/
  execute : ∀ st, R (calls.execute st) (calls'.execute st)
  /-- making an object -/
  construct : ∀ c, R (calls.construct c) (calls'.construct c)
  /-- calling a routine -/
  invoke : ∀ routine arguments receiver,
    R (calls.invoke routine arguments receiver) (calls'.invoke routine arguments receiver)
  /-- going one level deeper -/
  deeper : ∀ {α : Type} {m m' : Run α}, R m m' → R (calls.deeper m) (calls'.deeper m')

namespace Run.Congruence

variable {R : {α : Type} → Run α → Run α → Prop} (hR : Congruence R) {cx : Context}
include hR

/-- A relation that respects opening and closing goes through scopes. -/
theorem inBlock {α : Type} {m m' : Run α} (h : R m m') : R (Run.inBlock m) (Run.inBlock m') := by
  rw [inBlock_eq_around, inBlock_eq_around]
  exact hR.around (fun _ => ⟨rfl, rfl⟩) (fun _ => ⟨rfl, rfl⟩) h

/-- It goes through the scopes of calls. -/
theorem inCall {α : Type} {m m' : Run α} (h : R m m') : R (Run.inCall m) (Run.inCall m') := by
  rw [inCall_eq_around, inCall_eq_around]
  exact hR.around (fun _ => ⟨rfl, rfl⟩) (fun _ => ⟨rfl, rfl⟩) h

/-! ## Values -/

section

variable {evaluate evaluate' : Expr → Run Value} {construct construct' : ClassDef → Run Ref}
  {invoke invoke' : Routine → List Expr → Option Ref → Run Value}

/-- It holds between lists of expressions, evaluated one by one. -/
theorem evaluateAll (h : ∀ e, R (evaluate e) (evaluate' e)) :
    ∀ es : List Expr, R (evaluateAll evaluate es) (ClassLang.evaluateAll evaluate' es)
  | [] => hR.basic (.pure _)
  | e :: rest =>
    hR.bind (h e) fun _ => hR.bind (evaluateAll h rest) fun _ => hR.basic (.pure _)

/-- It holds between objects made by the name of their class. -/
theorem constructNamed (h : ∀ c, R (construct c) (construct' c)) (name : String) :
    R (constructNamed cx construct name) (ClassLang.constructNamed cx construct' name) :=
  hR.bind (hR.basic (.ofExcept (cx.shallow_classNamed name))) fun c =>
    hR.bind (h c) fun _ => hR.basic (.pure _)

/-- It holds between what declarations start out with. -/
theorem initialValue (hevaluate : ∀ e, R (evaluate e) (evaluate' e))
    (hconstruct : ∀ c, R (construct c) (construct' c)) (d : Declaration) :
    R (initialValue cx evaluate construct d)
      (ClassLang.initialValue cx evaluate' construct' d) := by
  have hnamed : ∀ name, R (ClassLang.constructNamed cx construct name)
      (ClassLang.constructNamed cx construct' name) :=
    hR.constructNamed hconstruct
  have hcheck : ∀ value : Value, R (if value.type = d.type then pure value
      else Run.fail (.invalidInitialisation d.name d.type value.type))
      (if value.type = d.type then pure value
      else Run.fail (.invalidInitialisation d.name d.type value.type)) := by
    intro value
    split
    · exact hR.basic (.pure _)
    · exact hR.basic (.fail (by rintro limit ⟨⟩))
  unfold ClassLang.initialValue
  rcases d.initial with _ | e
  · cases d.type with
    | cls name => exact hnamed name
    | _ => exact hR.basic (.pure _)
  · refine hR.bind (hevaluate e) fun value => ?_
    cases value with
    | cls name => exact hR.bind (hnamed name) hcheck
    | _ => exact hR.bind (hR.basic (.pure _)) hcheck

/-- It holds between the values of the fields of new objects. -/
theorem memberValues {initialValue initialValue' : Declaration → Run Value}
    (h : ∀ d, R (initialValue d) (initialValue' d)) :
    ∀ (ds : List Declaration) (fields : Table Value),
      R (memberValues initialValue fields ds) (ClassLang.memberValues initialValue' fields ds)
  | [], _ => hR.basic (.pure _)
  | d :: rest, _ =>
    hR.bind (h d) fun _ => hR.bind (hR.basic (.declare _ _)) fun _ => memberValues h rest _

/-! ## Calls -/

/-- It holds between calls of natives: what they print depends on arguments and
objects only. -/
theorem callNative (hevaluate : ∀ e, R (evaluate e) (evaluate' e)) (native : Native)
    (arguments : List Expr) :
    R (callNative cx evaluate native arguments)
      (ClassLang.callNative cx evaluate' native arguments) :=
  hR.bind (hR.evaluateAll hevaluate arguments) fun _ =>
    hR.basic (.bind (.reads _) fun _ => .bind (.print _) fun _ => .pure _)

/-- It holds between calls by a name without dots. -/
theorem callFunction (hevaluate : ∀ e, R (evaluate e) (evaluate' e))
    (hinvoke : ∀ routine arguments receiver,
      R (invoke routine arguments receiver) (invoke' routine arguments receiver))
    (name : String) (arguments : List Expr) :
    R (callFunction cx evaluate invoke name arguments)
      (ClassLang.callFunction cx evaluate' invoke' name arguments) := by
  unfold ClassLang.callFunction
  split
  · split
    · exact hR.basic (.pure _)
    · exact hR.basic (.fail (by rintro limit ⟨⟩))
  · refine hR.bind (hR.basic (.reads _)) fun routine => ?_
    rcases routine with _ | routine
    · refine hR.bind (hR.basic (.reads _)) fun native => ?_
      rcases native with _ | native
      · exact hR.basic (.fail (by rintro limit ⟨⟩))
      · exact hR.callNative hevaluate native arguments
    · exact hinvoke routine arguments none

/-- It holds between calls by a dotted name. -/
theorem callMember (hevaluate : ∀ e, R (evaluate e) (evaluate' e))
    (hinvoke : ∀ routine arguments receiver,
      R (invoke routine arguments receiver) (invoke' routine arguments receiver))
    (head : String) (path : List String) (arguments : List Expr) :
    R (callMember cx evaluate invoke head path arguments)
      (ClassLang.callMember cx evaluate' invoke' head path arguments) := by
  refine hR.bind (hR.basic (.reads _)) fun native => ?_
  rcases native with _ | native
  · refine hR.bind (hR.basic (.reads _)) fun value => ?_
    split
    · refine hR.bind (hR.basic (.tryReads fun s => s.shallow_objectAt _ _)) fun receiver => ?_
      split
      · exact hinvoke _ arguments _
      · exact hR.basic (.fail (by rintro limit ⟨⟩))
    · exact hR.basic (.fail (by rintro limit ⟨⟩))
  · exact hR.callNative hevaluate native arguments

end

/-! ## The steps -/

section

variable {calls calls' : Calls}

/-- The values of expressions are related. -/
theorem evaluateStep (h : calls.Related R calls') :
    ∀ e : Expr, R (evaluateStep cx calls e) (ClassLang.evaluateStep cx calls' e)
  | .integer _ | .decimal _ _ _ | .string _ | .boolean _ => hR.basic (.pure _)
  | .var name => hR.basic <| .bind (.reads _) fun value => by
    rcases value with _ | value
    · dsimp only
      split
      · exact .pure _
      · exact .fail (by rintro limit ⟨⟩)
    · exact .pure _
  | .member head path => hR.basic (.tryReads fun s => s.shallow_member head path)
  | .not operand => hR.bind (h.evaluate operand) fun _ => hR.basic (.pure _)
  | .logic .or left right => by
    refine hR.bind (h.evaluate left) fun l => ?_
    split
    · exact hR.basic (.pure _)
    · exact hR.bind (h.evaluate right) fun _ => hR.basic (.pure _)
  | .logic .and left right =>
    hR.bind (h.evaluate left) fun _ => hR.bind (h.evaluate right) fun _ => hR.basic (.pure _)
  | .binary op left right =>
    hR.bind (h.evaluate left) fun l => hR.bind (h.evaluate right) fun r => hR.basic <|
      .bind (.ofExcept (shallow_checkOperands _ l r)) fun _ => .ofExcept (op.shallow_apply _ l r)
  | .relation op _ left right =>
    hR.bind (h.evaluate left) fun l => hR.bind (h.evaluate right) fun r => hR.basic <|
      .bind (.ofExcept (shallow_checkOperands _ l r)) fun _ => .ofExcept (op.shallow_apply l r)
  | .call (.var name) arguments => hR.callFunction h.evaluate h.invoke name arguments
  | .call (.member head path) arguments =>
    hR.callMember h.evaluate h.invoke head path arguments
  | .methodCall head path arguments => hR.callMember h.evaluate h.invoke head path arguments

/-- What is skipped if a `return` is on its way out. -/
theorem unlessReturning {m m' : Run Unit} (h : R m m') :
    R (do if ← Run.isReturning then return () else m)
      (do if ← Run.isReturning then return () else m') := by
  refine hR.bind (hR.basic (.reads _)) fun returning => ?_
  split
  · exact hR.basic (.pure _)
  · exact h

/-- It holds between lists of statements, up to a `return`. -/
theorem executeAll (h : calls.Related R calls') :
    ∀ body : List Stmt,
      R (executeAll calls.execute body) (ClassLang.executeAll calls'.execute body)
  | [] => hR.basic (.pure _)
  | st :: rest => hR.bind (h.execute st) fun _ => hR.unlessReturning (executeAll h rest)

/-- It holds between blocks. -/
theorem executeBlock (h : calls.Related R calls') (body : List Stmt) :
    R (executeBlock calls.execute body) (ClassLang.executeBlock calls'.execute body) :=
  hR.inBlock (hR.executeAll h body)

/-- It holds between assignments, which may make an object. -/
theorem assign (h : calls.Related R calls') (target : Target) (value : Value) :
    R (assign cx calls.construct target value)
      (ClassLang.assign cx calls'.construct target value) := by
  cases value with
  | cls name =>
    refine hR.bind (hR.constructNamed h.construct name) fun value => ?_
    cases target with
    | var x =>
      refine hR.basic (.bind (.reads _) fun known => ?_)
      split
      · exact .write _ value
      · exact .declare x value
    | member head path => exact hR.basic (.write _ value)
  | _ => exact hR.basic (.write target _)

/-- The effects of statements are related. -/
theorem executeStep (h : calls.Related R calls') :
    ∀ st : Stmt, R (executeStep cx calls st) (ClassLang.executeStep cx calls' st)
  | .declare d =>
    hR.bind (hR.initialValue h.evaluate h.construct d) fun value =>
      hR.basic (.declare d.name value)
  | .assign target e => hR.bind (h.evaluate e) fun value => hR.assign h target value
  | .call e => hR.bind (h.evaluate e) fun _ => hR.basic (.pure _)
  | .ret e => hR.bind (h.evaluate e) fun _ =>
    hR.basic (.modify (fun _ => rfl) fun _ => ⟨"", by simp⟩)
  | .ifThen condition body => hR.bind (h.evaluate condition) fun value => by
    split
    · exact hR.executeBlock h body
    · exact hR.basic (.pure _)
  | .ifElse condition body otherwise => hR.bind (h.evaluate condition) fun value => by
    split
    · exact hR.executeBlock h body
    · exact hR.executeBlock h otherwise
  | .loop condition body => hR.bind (h.evaluate condition) fun value => by
    split
    · exact hR.bind (hR.executeBlock h body) fun _ => hR.unlessReturning (h.execute _)
    · exact hR.basic (.pure _)
  | .block body => hR.executeBlock h body

/-- The makings of objects are related. -/
theorem constructStep (h : calls.Related R calls') (c : ClassDef) :
    R (constructStep cx calls c) (ClassLang.constructStep cx calls' c) :=
  hR.bind (h.deeper (hR.inBlock (hR.memberValues (hR.initialValue h.evaluate h.construct)
    c.fields ∅))) fun _ => hR.basic (.allocate _)

/-- Calls are related. -/
theorem invokeStep (h : calls.Related R calls') (routine : Routine) (arguments : List Expr)
    (receiver : Option Ref) :
    R (invokeStep cx calls routine arguments receiver)
      (ClassLang.invokeStep cx calls' routine arguments receiver) := by
  refine hR.bind (hR.evaluateAll h.evaluate arguments) fun values => ?_
  refine hR.bind (hR.basic (.ofExcept (routine.shallow_checkArguments values))) fun _ => ?_
  refine hR.bind (hR.basic (.reads _)) fun bindings => ?_
  have hbody : R (callBody cx calls routine values receiver bindings)
      (callBody cx calls' routine values receiver bindings) :=
    hR.bind (hR.basic (basic_bindCall cx routine values receiver)) fun _ =>
      hR.bind (hR.executeAll h routine.body) fun _ =>
        hR.basic (basic_finalValues bindings receiver)
  refine hR.bind (h.deeper (hR.inCall hbody)) ?_
  rintro ⟨⟨written, fields⟩, returned⟩
  have hback : Basic (do
      Run.ofExcept (routine.checkResult returned)
      writeBack (bindings.zip written)
      return returned) :=
    .bind (.ofExcept (routine.shallow_checkResult returned)) fun _ =>
      .bind (basic_writeBack _) fun _ => .pure _
  cases receiver with
  | none => exact hR.basic hback
  | some ref =>
    exact hR.basic (.bind (.modify (fun _ => rfl) fun _ => ⟨"", by simp [State.putFields]⟩)
      fun _ => hback)

end

/-! ## Whole runs -/

section

variable {p : Program} {limit limit' fuel fuel' : Nat}

/-- With one more unit of fuel on either side, everything that can be called is
related again. The limits may differ, as long as going deeper respects them. -/
theorem related_callsAt_succ
    (hdeeper : ∀ {α : Type} {m m' : Run α}, R m m' → R (m.deeper limit) (m'.deeper limit'))
    (h : (callsAt ⟨p, limit⟩ fuel).Related R (callsAt ⟨p, limit'⟩ fuel')) :
    (callsAt ⟨p, limit⟩ (fuel + 1)).Related R (callsAt ⟨p, limit'⟩ (fuel' + 1)) where
  evaluate := @evaluateStep R hR ⟨p, limit⟩ _ _ h
  execute := @executeStep R hR ⟨p, limit⟩ _ _ h
  construct := @constructStep R hR ⟨p, limit⟩ _ _ h
  invoke := @invokeStep R hR ⟨p, limit⟩ _ _ h
  deeper := hdeeper

/-- The runs of `main` are related. -/
theorem runMain
    (h : (callsAt ⟨p, limit⟩ fuel).Related R (callsAt ⟨p, limit'⟩ fuel')) :
    R (runMain ⟨p, limit⟩ fuel) (ClassLang.runMain ⟨p, limit'⟩ fuel') := by
  unfold ClassLang.runMain
  dsimp only
  split
  · exact h.invoke _ [] none
  · exact hR.basic (.fail (by rintro limit ⟨⟩))

end

end Run.Congruence

end ClassLang
