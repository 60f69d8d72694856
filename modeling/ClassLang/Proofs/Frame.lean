import ClassLang.Proofs.Shape
import ClassLang.Proofs.Steps
import ClassLang.Proofs.Watched

/-!
# Frame discipline

Evaluating an expression leaves the shape of the state as it was, and no
`return` on its way out, whatever it calls and however it ends. Statements may
add a name to the scope they run in and may leave a `return` on its way out,
but only if they end without an error; a block takes the names with it.

The proof follows the interpreter. For the functions that call one another the
claim is `Calls.Framed`; each of the four steps turns it for what it calls into
the claim for itself, and induction on fuel does the rest. What is done between
the opening and the closing of a scope may change the shape of that scope, so
there only the shape below is spoken of (`State.InScope`).
-/

namespace ClassLang

open Run (Spec Keeps)

/-- The state has this shape, and no `return` is on its way out. -/
def State.InFrame (σ : Shape) (s : State) : Prop := s.shape = σ ∧ s.IsQuiet

/-- Below its innermost scope the state has this shape, and no `return` is on
its way out. -/
def State.InScope (β : Shape) (s : State) : Prop := s.shape.below = β ∧ s.IsQuiet

/-- Unless it came with an error, a result may leave a `return` on its way
out. -/
def QuietOnError {α : Type} (r : Except RuntimeError α) (s : State) : Prop :=
  ∀ e, r = .error e → s.IsQuiet

/-- With or without an error, a quiet state is quiet. -/
theorem State.IsQuiet.onError {α : Type} {r : Except RuntimeError α} {s : State}
    (h : s.IsQuiet) : QuietOnError r s := fun _ _ => h

theorem quietOnError_ok {α : Type} {a : α} {s : State} :
    QuietOnError (.ok a : Except RuntimeError α) s := fun _ h => by cases h

/-- What a statement leaves behind: at most one name more, and a `return` on its
way out only without an error. -/
def StatementFrame (σ : Shape) (r : Except RuntimeError Unit) (s : State) : Prop :=
  σ.Grows s.shape ∧ QuietOnError r s

/-- What the four functions that run a program have in common: they give the
scopes back as they were, up to one name that a statement may add. -/
structure Calls.Framed (calls : Calls) : Prop where
  /-- evaluation leaves the shape alone -/
  evaluate : ∀ σ e, Keeps (State.InFrame σ) (calls.evaluate e)
  /-- a statement adds at most one name -/
  execute : ∀ σ st, Spec (State.InFrame σ) (calls.execute st) (StatementFrame σ)
  /-- making an object leaves the shape alone -/
  construct : ∀ σ c, Keeps (State.InFrame σ) (calls.construct c)
  /-- a call leaves the shape alone -/
  invoke : ∀ σ routine arguments receiver,
    Keeps (State.InFrame σ) (calls.invoke routine arguments receiver)
  /-- going deeper comes back to where it was -/
  deeper : ∀ {α : Type} {m : Run α}, (∀ σ, Keeps (State.InFrame σ) m) →
    ∀ σ, Keeps (State.InFrame σ) (calls.deeper m)

/-! ## Computations that declare nothing -/

section

variable {α : Type} {σ β : Shape} {m : Run α}

/-- What leaves every shape alone leaves the shape below alone. -/
theorem Run.Keeps.inScope (h : ∀ σ, Keeps (State.InFrame σ) m) : Keeps (State.InScope β) m := by
  rintro s r s' ⟨hbelow, hquiet⟩ hm
  obtain ⟨hshape, hquiet'⟩ := h s.shape ⟨rfl, hquiet⟩ hm
  exact ⟨by rw [hshape, hbelow], hquiet'⟩

/-- Filling a slot stays in the frame. -/
theorem inFrame_put (s : State) (slot : Slot) (value : Value) (h : s.InFrame σ) :
    (s.put slot value).InFrame σ :=
  ⟨(s.shape_put slot value).trans h.1, State.isQuiet_put h.2 slot value⟩

theorem keeps_print (text : String) : Keeps (State.InFrame σ) (Run.print text) :=
  .print text fun _ h => h

/-- Writing fields back stays in the frame: it reaches objects only. -/
theorem keeps_putFields (ref : Ref) (fields : List (String × Value)) :
    Keeps (State.InFrame σ) (Run.modify (·.putFields ref fields)) :=
  .modify fun _ h => h

/-- Making an object does so too. -/
theorem keeps_allocate (object : Object) : Keeps (State.InFrame σ) (Run.allocate object) := by
  intro s r s' h hm
  cases hm
  exact h

/-- Three of the four functions keep the frame as it is. -/
theorem Calls.Framed.keep {calls : Calls} (h : calls.Framed) : calls.Keep (State.InFrame σ) where
  evaluate := h.evaluate σ
  construct := h.construct σ
  invoke := h.invoke σ

end

/-! ## Computations that declare -/

section

variable {σ β : Shape}

/-- A declaration adds at most one name and does not touch a `return` on its
way out. -/
theorem grows_of_run_declare {name : String} {value : Value} {s s' : State}
    {r : Except RuntimeError Unit} (h : Run.declare name value s = some (r, s')) :
    s.shape.Grows s'.shape ∧ s'.environment.pendingReturn = s.environment.pendingReturn := by
  simp only [Run.declare, Run.tryModify] at h
  rcases hdeclare : s.environment.declare name value with e | e <;> rw [hdeclare] at h <;> cases h
  · exact ⟨.same, rfl⟩
  · obtain ⟨-, hpending, -, -⟩ := Environment.declare_eq_ok hdeclare
    exact ⟨State.grows_of_declare hdeclare, hpending⟩

/-- A declaration in a statement adds its name, unless it fails. -/
theorem spec_declare (name : String) (value : Value) :
    Spec (State.InFrame σ) (Run.declare name value) (StatementFrame σ) := by
  rintro s r s' ⟨rfl, hquiet⟩ h
  obtain ⟨hgrows, hpending⟩ := grows_of_run_declare h
  exact ⟨hgrows, State.IsQuiet.onError (hpending.trans hquiet)⟩

/-- Seen from below its scope, a declaration changes nothing. -/
theorem keeps_declare (name : String) (value : Value) :
    Keeps (State.InScope β) (Run.declare name value) := by
  rintro s r s' ⟨rfl, hquiet⟩ h
  obtain ⟨hgrows, hpending⟩ := grows_of_run_declare h
  exact ⟨hgrows.below_eq, hpending.trans hquiet⟩

theorem keeps_declareAll :
    ∀ entries : List (String × Value), Keeps (State.InScope β) (Run.declareAll entries)
  | [] => .pure _
  | (name, value) :: rest => .bind (keeps_declare name value) fun _ => keeps_declareAll rest

/-- Declaring routines changes the current scope only. -/
theorem keeps_declareMethods (routines : List Routine) :
    Keeps (State.InScope β) (Run.declareMethods routines) := by
  refine .modify fun s hs => ?_
  suffices h : ∀ e : Environment, ({ s with environment := e } : State).InScope β →
      ({ s with environment := routines.foldl Environment.declareMethod e } : State).InScope β from
    h s.environment hs
  induction routines with
  | nil => exact fun _ h => h
  | cons routine rest ih =>
    rintro e ⟨hbelow, hquiet⟩
    refine ih _ ⟨?_, ?_⟩
    · rw [← hbelow, Shape.below, Shape.below, State.shape, State.shape]
      congr 1
      · rcases hinner : e.inner with _ | ⟨top, inner⟩ <;>
          simp [Environment.declareMethod, Environment.shapes_eq, hinner]
      · rw [Environment.declareMethod]
        split <;> rfl
    · rw [Environment.declareMethod]
      split <;> exact hquiet

end

/-! ## Scopes that are opened and closed -/

section

variable {α : Type} {σ : Shape} {m : Run α}

/-- Behind an opened scope, the old shape lies below the current scope. -/
theorem inScope_startBlock {s : State} (h : s.IsQuiet) :
    ({ s with environment := s.environment.startBlock } : State).InScope s.shape :=
  ⟨rfl, h⟩

/-- Closing a scope uncovers the shape below it. -/
theorem shape_endBlock {s : State} {e : Environment} (hshapes : e.shapes = s.environment.endBlock.shapes)
    (hnatives : e.natives = s.environment.natives) (hbelow : s.shape.below = σ)
    (hσ : σ.scopes ≠ []) : ({ s with environment := e } : State).shape = σ := by
  have htail : s.environment.shapes.tail = σ.scopes := congrArg Shape.scopes hbelow
  -- There are scopes below, so the innermost one is not the last.
  have hopen : 1 < s.environment.shapes.length := by
    rcases hs : s.environment.shapes with _ | ⟨top, _ | ⟨next, rest⟩⟩
    · exact absurd hs s.environment.shapes_ne_nil
    · rw [hs] at htail
      exact absurd htail.symm hσ
    · simp
  rw [← hbelow, Shape.below, State.shape, State.shape, hshapes, hnatives,
    Environment.shapes_endBlock hopen]

/-- A block gives the scopes back as they were, if its body leaves those below
its own alone. Whatever else can be said of a `return` on its way out is left
as it is. -/
theorem spec_inBlock {Q : Except RuntimeError α → State → Prop}
    (hQ : ∀ r s, Q r s → Q r { s with environment := s.environment.endBlock })
    (h : ∀ β, Spec (State.InScope β) m fun r s => s.shape.below = β ∧ Q r s) :
    Spec (State.InFrame σ) (Run.inBlock m) fun r s => s.shape = σ ∧ Q r s := by
  rintro s r s' ⟨rfl, hquiet⟩ hm
  rw [Run.inBlock] at hm
  rcases hbody : m { s with environment := s.environment.startBlock } with _ | ⟨r', t⟩ <;>
    rw [hbody] at hm <;> cases hm
  obtain ⟨hbelow, hreturn⟩ := h s.shape (inScope_startBlock hquiet) hbody
  exact ⟨shape_endBlock rfl rfl hbelow s.environment.shapes_ne_nil, hQ r t hreturn⟩

/-- A call gives the scopes back as they were and takes the `return` of its
body off, if its body leaves the scopes below its own alone. -/
theorem keeps_inCall (h : ∀ β, Spec (State.InScope β) m fun _ s => s.shape.below = β) :
    Keeps (State.InFrame σ) (Run.inCall m) := by
  rintro s r s' ⟨rfl, hquiet⟩ hm
  rw [Run.inCall] at hm
  rcases hbody : m { s with environment := s.environment.startBlock } with _ | ⟨r', t⟩ <;>
    rw [hbody] at hm <;> cases hm
  have hbelow := h s.shape (inScope_startBlock hquiet) hbody
  exact ⟨shape_endBlock rfl rfl hbelow s.environment.shapes_ne_nil, rfl⟩

/-- Going one level deeper and coming back leaves the depth as it was, if what
is done there does. -/
theorem keeps_deeper {limit : Nat} (h : ∀ σ, Keeps (State.InFrame σ) m) (σ : Shape) :
    Keeps (State.InFrame σ) (Run.deeper limit m) := by
  rintro s r s' ⟨rfl, hquiet⟩ hm
  rw [Run.deeper] at hm
  split at hm
  · cases hm
    exact ⟨rfl, hquiet⟩
  · rcases hbody : m { s with depth := s.depth + 1 } with _ | ⟨r', t⟩ <;> rw [hbody] at hm <;>
      cases hm
    have hdeeper : State.InFrame { s.shape with depth := s.depth + 1 }
        { s with depth := s.depth + 1 } := ⟨rfl, hquiet⟩
    obtain ⟨hshape, hquiet'⟩ := h _ hdeeper hbody
    refine ⟨?_, hquiet'⟩
    have hscopes := congrArg Shape.scopes hshape
    have hnatives := congrArg Shape.natives hshape
    have hdepth : t.depth = s.depth + 1 := congrArg Shape.depth hshape
    ext1
    · exact hscopes
    · exact hnatives
    · change t.depth - 1 = s.depth
      rw [hdepth, Nat.add_sub_cancel]

end

/-! ## The steps -/

section

variable {cx : Context} {calls : Calls} {σ β : Shape}

/-- What is skipped if a `return` is on its way out. -/
theorem spec_unlessReturning {P : State → Prop} {m : Run Unit}
    {post : Except RuntimeError Unit → State → Prop} (hskip : ∀ s, P s → post (.ok ()) s)
    (hm : Spec (fun s => P s ∧ s.IsQuiet) m post) :
    Spec P (do if ← Run.isReturning then return () else m) post := by
  intro s r s' hs h
  rcases hreturning : s.environment.isReturning with _ | _
  · rw [Run.bind_of_ok (a := false) (t := s) (by rw [← hreturning]; rfl)] at h
    exact hm ⟨hs, State.isReturning_eq_false_iff.mp hreturning⟩ h
  · rw [Run.bind_of_ok (a := true) (t := s) (by rw [← hreturning]; rfl)] at h
    cases h
    exact hskip s hs

/-- Statements in a scope leave the scopes below alone. -/
theorem spec_executeAll (h : calls.Framed) :
    ∀ body : List Stmt, Spec (State.InScope β) (executeAll calls.execute body) fun r s =>
      s.shape.below = β ∧ QuietOnError r s
  | [] => by
    rintro s r s' ⟨rfl, hquiet⟩ hm
    cases hm
    exact ⟨rfl, hquiet.onError⟩
  | st :: rest => by
    have hst : Spec (State.InScope β) (calls.execute st) fun r s =>
        s.shape.below = β ∧ QuietOnError r s := by
      rintro s r s' ⟨rfl, hquiet⟩ hm
      obtain ⟨hgrows, hreturn⟩ := h.execute s.shape st ⟨rfl, hquiet⟩ hm
      exact ⟨hgrows.below_eq, hreturn⟩
    refine .bind (Q := fun _ s => s.shape.below = β) (fun s r s' hs hm _ _ => (hst hs hm).1) ?_ ?_
    · rintro s r s' hs hm e rfl
      exact hst hs hm
    · exact fun _ => spec_unlessReturning (fun _ hbelow => ⟨hbelow, quietOnError_ok⟩)
        (spec_executeAll h rest)

/-- A block leaves the shape alone. -/
theorem spec_executeBlock (h : calls.Framed) (body : List Stmt) :
    Spec (State.InFrame σ) (executeBlock calls.execute body) fun r s =>
      s.shape = σ ∧ QuietOnError r s :=
  spec_inBlock (fun _ _ hreturn => hreturn) fun _ => spec_executeAll h body

/-- The fields of a new object are declared in a scope that is on top. -/
theorem keeps_memberValues (h : calls.Framed) :
    ∀ (ds : List Declaration) (fields : Table Value),
      Keeps (State.InScope β)
        (memberValues (initialValue cx calls.evaluate calls.construct) fields ds)
  | [], _ => .pure _
  | d :: rest, _ =>
    .bind (.inScope fun _ => keeps_initialValue (h.evaluate _) (h.construct _) d) fun _ =>
      .bind (keeps_declare _ _) fun _ => keeps_memberValues h rest _

/-- One step of making an object leaves the frame as it was. -/
theorem keeps_constructStep (h : calls.Framed) (c : ClassDef) :
    Keeps (State.InFrame σ) (constructStep cx calls c) :=
  .bind (h.deeper (fun _ => spec_inBlock (Q := fun _ s => s.IsQuiet) (fun _ _ hquiet => hquiet)
    fun _ => keeps_memberValues h c.fields ∅) σ) fun _ => keeps_allocate _

/-- What fills the scope of a call stays in it. -/
theorem keeps_bindCall (routine : Routine) (values : List Value) (receiver : Option Ref) :
    Keeps (State.InScope β) (bindCall cx routine values receiver) := by
  unfold bindCall
  cases receiver with
  | none => exact .bind (.pure _) fun _ => keeps_declareAll _
  | some ref =>
    exact .bind (.reads _) fun _ => .bind (keeps_declareAll _) fun _ =>
      .bind (keeps_declareMethods _) fun _ => keeps_declareAll _

/-- What happens in the scope of a call leaves the scopes below alone. -/
theorem spec_callBody (h : calls.Framed) (routine : Routine) (values : List Value)
    (receiver : Option Ref) (bindings : List Binding) :
    Spec (State.InScope β) (callBody cx calls routine values receiver bindings) fun _ s =>
      s.shape.below = β := by
  refine .bind_keeps (keeps_bindCall routine values receiver) (fun _ _ hs => hs.1) fun _ => ?_
  refine .bind (Q := fun _ s => s.shape.below = β) ?_ ?_ fun _ => keeps_finalValues _ _
  · exact fun s r s' hs hm _ _ => (spec_executeAll h routine.body hs hm).1
  · exact fun s r s' hs hm _ _ => (spec_executeAll h routine.body hs hm).1

/-- One step of a call leaves the frame as it was. -/
theorem keeps_invokeStep (h : calls.Framed) (routine : Routine) (arguments : List Expr)
    (receiver : Option Ref) :
    Keeps (State.InFrame σ) (invokeStep cx calls routine arguments receiver) := by
  refine .bind (keeps_evaluateAll (h.evaluate σ) arguments) fun values => ?_
  refine .bind (.ofExcept _) fun _ => .bind (.reads _) fun bindings => ?_
  refine .bind (h.deeper (fun _ => keeps_inCall fun _ =>
    spec_callBody h routine values receiver bindings) σ) ?_
  -- The scope of the call is closed by now: what it wrote is handed back by value.
  rintro ⟨⟨written, fields⟩, returned⟩
  have hback : Keeps (State.InFrame σ) (do
      Run.ofExcept (routine.checkResult returned)
      writeBack (bindings.zip written)
      return returned) :=
    .bind (.ofExcept _) fun _ => .bind (keeps_writeBack inFrame_put _) fun _ => .pure _
  cases receiver with
  | none => exact hback
  | some ref => exact .bind (keeps_putFields ref fields) fun _ => hback

/-- A statement that leaves the frame alone leaves no more than a statement may. -/
theorem State.InFrame.statementFrame {s : State} (h : s.InFrame σ)
    (r : Except RuntimeError Unit) : StatementFrame σ r s :=
  ⟨h.1 ▸ .same, h.2.onError⟩

/-- What goes for a frame that is kept goes for a statement. -/
theorem spec_of_keeps {m : Run Unit} (h : Keeps (State.InFrame σ) m) :
    Spec (State.InFrame σ) m (StatementFrame σ) :=
  h.imp (fun _ hs => hs) fun r _ hs => hs.statementFrame r

/-- A block takes the names that are declared in it with it. -/
theorem spec_block (h : calls.Framed) (body : List Stmt) :
    Spec (State.InFrame σ) (executeBlock calls.execute body) (StatementFrame σ) :=
  (spec_executeBlock h body).imp (fun _ hs => hs) fun _ _ hs => ⟨hs.1 ▸ .same, hs.2⟩

/-- An assignment of a class may declare a variable, any other does not. -/
theorem spec_assign (h : calls.Framed) (target : Target) (value : Value) :
    Spec (State.InFrame σ) (assign cx calls.construct target value) (StatementFrame σ) := by
  have hwrite : ∀ v, Spec (State.InFrame σ) (Run.write target v) (StatementFrame σ) :=
    fun v => spec_of_keeps (.write inFrame_put target v)
  cases value with
  | cls name =>
    refine .bind_keeps (keeps_constructNamed (h.construct σ) name)
      (fun _ _ hs => hs.statementFrame _) fun value => ?_
    cases target with
    | var x =>
      refine .bind_keeps (.reads _) (fun _ _ hs => hs.statementFrame _) fun known => ?_
      split
      · exact hwrite value
      · exact spec_declare x value
    | member head path => exact hwrite value
  | _ => exact hwrite _

/-- A statement behind an expression whose value it uses. -/
theorem spec_behind (h : calls.Framed) (e : Expr) {f : Value → Run Unit}
    (hf : ∀ value, Spec (State.InFrame σ) (f value) (StatementFrame σ)) :
    Spec (State.InFrame σ) (calls.evaluate e >>= f) (StatementFrame σ) :=
  .bind_keeps (h.evaluate σ e) (fun _ _ hs => hs.statementFrame _) hf

/-- The rest of a loop runs only if its body leaves no `return` on its way
out. -/
theorem spec_repeat (h : calls.Framed) (body : List Stmt) (again : Stmt) :
    Spec (State.InFrame σ)
      (do
        executeBlock calls.execute body
        if ← Run.isReturning then return () else calls.execute again)
      (StatementFrame σ) := by
  have hblock := spec_executeBlock (σ := σ) h body
  refine .bind (Q := fun _ s => s.shape = σ) (fun s r s' hs hm _ _ => (hblock hs hm).1) ?_ ?_
  · rintro s r s' hs hm e rfl
    exact ⟨(hblock hs hm).1 ▸ .same, (hblock hs hm).2⟩
  · exact fun _ => spec_unlessReturning (fun _ hshape => ⟨hshape ▸ .same, quietOnError_ok⟩)
      (h.execute σ again)

/-- One step of a statement adds at most one name. -/
theorem spec_executeStep (h : calls.Framed) :
    ∀ st : Stmt, Spec (State.InFrame σ) (executeStep cx calls st) (StatementFrame σ)
  | .declare d =>
    .bind_keeps (keeps_initialValue (h.evaluate σ) (h.construct σ) d)
      (fun _ _ hs => hs.statementFrame _) fun value => spec_declare d.name value
  | .assign target e => spec_behind h e fun value => spec_assign h target value
  | .call e => spec_behind h e fun _ => spec_of_keeps (.pure _)
  | .ret e => spec_behind h e fun value => by
    rintro s r s' ⟨rfl, -⟩ hm
    cases hm
    exact ⟨.same, quietOnError_ok⟩
  | .ifThen condition body => spec_behind h condition fun value => by
    split
    · exact spec_block h body
    · exact spec_of_keeps (.pure _)
  | .ifElse condition body otherwise => spec_behind h condition fun value => by
    split
    · exact spec_block h body
    · exact spec_block h otherwise
  | .loop condition body => spec_behind h condition fun value => by
    split
    · exact spec_repeat h body (.loop condition body)
    · exact spec_of_keeps (.pure _)
  | .block body => spec_block h body

end

/-! ## Runs -/

/-- What a step can call keeps its frame, whatever fuel is left. -/
theorem framed_callsAt (cx : Context) : ∀ fuel : Nat, (callsAt cx fuel).Framed
  | 0 =>
    { evaluate := fun _ _ => .outOfFuel
      execute := fun _ _ _ _ _ _ hm => by cases hm
      construct := fun _ _ => .outOfFuel
      invoke := fun _ _ _ _ => .outOfFuel
      deeper := keeps_deeper }
  | fuel + 1 =>
    have ih := framed_callsAt cx fuel
    { evaluate := fun _ e => keeps_evaluateStep keeps_print ih.keep e
      execute := fun _ st => spec_executeStep ih st
      construct := fun _ c => keeps_constructStep ih c
      invoke := fun _ routine arguments receiver => keeps_invokeStep ih routine arguments receiver
      deeper := keeps_deeper }

/-- **Frame discipline.** Started within the limit on nesting and with no
`return` on its way out, the evaluation of an expression gives back every scope
with the names and routines it had, the natives and the depth, and leaves no
`return` on its way out, whether it ends with a value or with an error. A block
does the same, but may leave a `return` on its way out if it ends without an
error; a statement that is not in a block of its own may also add one name to
the scope it is in. All of them have the same outcome under observation: on the
way the depth neither goes above the limit nor is counted down from nought. -/
theorem frame_discipline (cx : Context) (fuel : Nat) (s : State)
    (hquiet : s.environment.pendingReturn = none) (hdepth : s.depth ≤ cx.maxDepth) :
    (∀ e r s', evaluate cx fuel e s = some (r, s') →
      s'.shape = s.shape ∧ s'.environment.pendingReturn = none ∧
        evaluateWatched cx fuel e s = some (r, s')) ∧
    (∀ body r s', executeBlock (execute cx fuel) body s = some (r, s') →
      s'.shape = s.shape ∧ QuietOnError r s' ∧
        executeBlock (executeWatched cx fuel) body s = some (r, s')) ∧
    (∀ st r s', execute cx fuel st s = some (r, s') →
      s.shape.Grows s'.shape ∧ QuietOnError r s' ∧
        executeWatched cx fuel st s = some (r, s')) := by
  have hframed := framed_callsAt cx fuel
  have hwatched := related_watchedAt cx fuel
  -- The first half knows nothing of the depth on the way, the second nothing of
  -- the shape; both speak of the same outcome.
  have hframe : s.InFrame s.shape := ⟨rfl, hquiet⟩
  refine ⟨fun e r s' h => ?_, fun body r s' h => ?_, fun st r s' h => ?_⟩
  · obtain ⟨hshape, hquiet'⟩ := hframed.evaluate s.shape e hframe h
    exact ⟨hshape, hquiet', (hwatched.evaluate e s hdepth).1.trans h⟩
  · obtain ⟨hshape, hreturn⟩ := spec_executeBlock hframed body hframe h
    have hblock := (Run.congruence_level cx.maxDepth).executeBlock hwatched body
    exact ⟨hshape, hreturn, (hblock s hdepth).1.trans h⟩
  · obtain ⟨hgrows, hreturn⟩ := hframed.execute s.shape st hframe h
    exact ⟨hgrows, hreturn, (hwatched.execute st s hdepth).1.trans h⟩

/-- A program with a function that fails in a block inside of it, where two
variables of its own are in sight. -/
def failsInside : Program where
  functions := .ofList [
    ("f", { returns := .boolean, name := "f", parameters := [], body := [
      .declare { type := .boolean, name := "x", initial := some (.boolean true) },
      .block [
        .declare { type := .boolean, name := "y", initial := some (.var "x") },
        .ret (.var "z")]] })]

theorem frame_discipline_failsInside :
    ∃ s', evaluate ⟨failsInside, 1⟩ 9 (.call (.var "f") []) (.ready failsInside [])
        = some (.error (.undeclaredSymbol "z"), s') ∧
      s'.shape = (State.ready failsInside []).shape ∧ s'.environment.pendingReturn = none ∧
      evaluateWatched ⟨failsInside, 1⟩ 9 (.call (.var "f") []) (.ready failsInside [])
        = some (.error (.undeclaredSymbol "z"), s') := by
  obtain ⟨s', h⟩ : ∃ s', evaluate ⟨failsInside, 1⟩ 9 (.call (.var "f") [])
      (.ready failsInside []) = some (.error (.undeclaredSymbol "z"), s') := ⟨_, rfl⟩
  obtain ⟨hevaluate, -, -⟩ :=
    frame_discipline ⟨failsInside, 1⟩ 9 (.ready failsInside []) rfl (Nat.zero_le 1)
  exact ⟨s', h, hevaluate _ _ _ h⟩

end ClassLang
