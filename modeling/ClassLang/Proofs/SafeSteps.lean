import ClassLang.Proofs.Safe

/-!
# Steps that leave sound states sound

One step of evaluation, of a statement and of making an object is safe if what
it calls is (`Calls.Safe`). A value may be a class wherever it is on its way; it
is stopped at declarations, which make an object of it, and so does an
assignment. The one place where this is not enough is a write-back, so a value
is followed from a variable to the argument of a call (`IsValueOf`).
-/

namespace ClassLang

open Run (Safe)

/-! ## Values -/

/-- What is known of the value of an expression: it is there, and if it is a
class and the expression could be written to, then it is a variable that may
hold one. -/
def IsValueOf (κ : Marks) (ν : List (List String)) (e : Expr) (v : Value) (h : Heap) : Prop :=
  v.ExistsIn h ∧ ∀ target, e.target? = some target → v.IsClass →
    ∃ name, target.bareName? = some name ∧ κ.Allow name ν

/-- The value of an expression stays one. -/
theorem IsValueOf.mono {κ : Marks} {ν : List (List String)} {e : Expr} {v : Value} {h h' : Heap}
    (hv : IsValueOf κ ν e v h) (hg : h.Grows h') : IsValueOf κ ν e v h' :=
  ⟨hv.1.mono hg, hv.2⟩

/-- Whatever can be called leaves sound states sound. -/
structure Calls.Safe (cx : Context) (κ : Marks) (calls calls' : Calls) : Prop where
  /-- evaluation -/
  evaluate : ∀ ν h e,
    Run.Safe cx κ (named ν) h (IsValueOf κ ν e) (calls.evaluate e) (calls'.evaluate e)
  /-- execution -/
  execute : ∀ N ν h st, Run.Safe cx κ (Scope.Has N :: named ν) h (fun _ _ => True)
    (calls.execute st) (calls'.execute st)
  /-- making an object of a class of the program -/
  construct : ∀ ν h c, cx.program.classes.get? c.name = some c →
    Run.Safe cx κ (named ν) h (fun ref h' => ref.ExistsIn h') (calls.construct c)
      (calls'.construct c)
  /-- calling a routine, on an object that is there -/
  invoke : ∀ ν h routine arguments receiver, (∀ ref, receiver = some ref → ref.ExistsIn h) →
    Run.Safe cx κ (named ν) h (fun v h' => v.ExistsIn h')
      (calls.invoke routine arguments receiver) (calls'.invoke routine arguments receiver)
  /-- going deeper -/
  deeper : ∀ {Ψ h} {α : Type} {post : α → Heap → Prop} {m m' : Run α},
    Run.Safe cx κ Ψ h post m m' → Run.Safe cx κ Ψ h post (calls.deeper m) (calls'.deeper m')

/-- The classes of a program go by their own names. -/
def Program.NamesClasses (p : Program) : Prop :=
  ∀ name c, p.classes.get? name = some c → c.name = name

section

variable {cx : Context} {κ : Marks} {ν : List (List String)} {N : List String} {h : Heap}
  {calls calls' : Calls} (hnames : cx.program.NamesClasses)

section

variable {evaluate evaluate' : Expr → Run Value} {construct construct' : ClassDef → Run Ref}

/-- Evaluating arguments is safe if evaluating each of them is. -/
theorem safe_evaluateAll
    (hevaluate : ∀ h e, Safe cx κ (named ν) h (IsValueOf κ ν e) (evaluate e) (evaluate' e)) :
    ∀ (es : List Expr) (h : Heap), Safe cx κ (named ν) h
      (fun values h' => List.Forall₂ (fun e v => IsValueOf κ ν e v h') es values)
      (evaluateAll evaluate es) (evaluateAll evaluate' es)
  | [], _ => .pure fun _ _ => .nil
  | e :: rest, h => by
    refine .bind (hevaluate h e) fun value h₁ _ hvalue => ?_
    refine .bind (safe_evaluateAll hevaluate rest h₁) fun values h₂ hg hvalues => ?_
    refine .pure fun h₃ hg' => .cons (hvalue.mono (hg.trans hg')) ?_
    exact hvalues.imp fun _ _ hv => hv.mono hg'

include hnames in
/-- Constructing by name is safe, and does not give a class. -/
theorem safe_constructNamed {Ψ : List (Scope → Prop)}
    (hconstruct : ∀ h c, cx.program.classes.get? c.name = some c →
      Safe cx κ Ψ h (fun ref h' => ref.ExistsIn h') (construct c) (construct' c))
    (name : String) :
    Safe cx κ Ψ h (fun v h' => v.ExistsIn h' ∧ ¬ v.IsClass) (constructNamed cx construct name)
      (constructNamed cx construct' name) := by
  refine .bind (Q := fun c _ => cx.program.classes.get? c.name = some c)
    (.ofExcept fun c h' _ hc => ?_) fun c h₁ _ hc => ?_
  · rw [Context.classNamed] at hc
    split at hc <;> cases hc
    next hfound =>
    rwa [hnames name c hfound]
  · refine .bind (hconstruct h₁ c hc) fun ref h₂ _ href => .pure fun h₃ hg => ?_
    exact ⟨Ref.ExistsIn.mono hg href, id⟩

include hnames in
/-- The first value of a variable is there. -/
theorem safe_initialValue {Ψ : List (Scope → Prop)}
    (hevaluate : ∀ h e, Safe cx κ Ψ h (fun v h' => v.ExistsIn h') (evaluate e) (evaluate' e))
    (hconstruct : ∀ h c, cx.program.classes.get? c.name = some c →
      Safe cx κ Ψ h (fun ref h' => ref.ExistsIn h') (construct c) (construct' c))
    (d : Declaration) :
    Safe cx κ Ψ h (fun v h' => v.ExistsIn h' ∧ ¬ v.IsClass) (initialValue cx evaluate construct d)
      (initialValue cx evaluate' construct' d) := by
  have hnamed : ∀ h name, Safe cx κ Ψ h (fun v h' => v.ExistsIn h' ∧ ¬ v.IsClass)
      (constructNamed cx construct name) (constructNamed cx construct' name) :=
    fun h => safe_constructNamed hnames hconstruct
  have hcheck : ∀ (value : Value) (h₁ h₂ : Heap), h₁.Grows h₂ →
      (value.ExistsIn h₂ ∧ ¬ value.IsClass) →
      Safe cx κ Ψ h₂ (fun v h' => v.ExistsIn h' ∧ ¬ v.IsClass)
        (if value.type = d.type then pure value
          else Run.fail (.invalidInitialisation d.name d.type value.type))
        (if value.type = d.type then pure value
          else Run.fail (.invalidInitialisation d.name d.type value.type)) := by
    intro value _ h₂ _ hvalue
    split
    · exact .pure fun _ hg => ⟨hvalue.1.mono hg, hvalue.2⟩
    · exact .fail _
  rw [initialValue, initialValue]
  rcases d.initial with _ | e
  · cases hty : d.type with
    | cls name => exact hnamed h name
    | _ => exact .pure fun h' _ => Value.existsIn_zero h' _
  · refine .bind (hevaluate h e) fun value h₁ _ hvalue => ?_
    cases value with
    | cls name => exact .bind (hnamed h₁ name) fun value h₂ => hcheck value h₁ h₂
    | _ => exact .bind (.pure fun _ hg => ⟨hvalue.mono hg, id⟩) fun value h₂ => hcheck value h₁ h₂

end

/-- What is known of the fields set up so far: there are those declared so far,
and what they hold is there and no class. -/
structure FieldsOf (done : List String) (fields : Table Value) (h : Heap) : Prop where
  /-- the fields are those declared -/
  names : ∀ name, name ∈ fields.names ↔ name ∈ done
  /-- what they hold is there and no class -/
  values : ∀ name v, fields.get? name = some v → v.ExistsIn h ∧ ¬ v.IsClass

/-- One field more has its value. -/
theorem FieldsOf.insert {done : List String} {fields : Table Value} {h h' : Heap}
    (hfields : FieldsOf done fields h) (hg : h.Grows h') (name : String) {v : Value}
    (hv : v.ExistsIn h' ∧ ¬ v.IsClass) :
    FieldsOf (done ++ [name]) (fields.insert name v) h' where
  names other := by
    rw [Table.mem_names_insert, hfields.names, List.mem_append, List.mem_singleton, or_comm]
  values other w hw := by
    rw [Table.get?_insert] at hw
    split at hw
    · cases hw
      exact hv
    · exact ⟨(hfields.values other w hw).1.mono hg, (hfields.values other w hw).2⟩

/-- Setting up the fields of a new object is safe. -/
theorem safe_memberValues {ψ : Scope → Prop} {Ψ : List (Scope → Prop)} (hopen : Scope.Open ψ)
    {initialValue initialValue' : Declaration → Run Value}
    (hinitial : ∀ h d, Safe cx κ (ψ :: Ψ) h (fun v h' => v.ExistsIn h' ∧ ¬ v.IsClass)
      (initialValue d) (initialValue' d)) :
    ∀ (ds : List Declaration) (done : List String) (fields : Table Value) (h : Heap),
      FieldsOf done fields h → Safe cx κ (ψ :: Ψ) h
        (FieldsOf (done ++ ds.map Declaration.name))
        (memberValues initialValue fields ds) (memberValues initialValue' fields ds)
  | [], done, fields, h, hfields => .pure fun h' hg => by
    rw [List.map_nil, List.append_nil]
    exact ⟨hfields.names, fun name v hv =>
      ⟨(hfields.values name v hv).1.mono hg, (hfields.values name v hv).2⟩⟩
  | d :: rest, done, fields, h, hfields => by
    refine .bind (hinitial h d) fun value h₁ hg hvalue => ?_
    refine .bind (.declare_of_not_class hopen hvalue.1 hvalue.2) fun _ h₂ hg' _ => ?_
    have hinserted := hfields.insert (hg.trans hg') d.name ⟨hvalue.1.mono hg', hvalue.2⟩
    have hrest := safe_memberValues hopen hinitial rest _ _ h₂ hinserted
    rwa [List.append_assoc, List.singleton_append, ← List.map_cons] at hrest

/-! ## Calls -/

section

variable {evaluate evaluate' : Expr → Run Value}
  {invoke invoke' : Routine → List Expr → Option Ref → Run Value}

/-- Natives do not change what a program can see. -/
theorem safe_callNative
    (hevaluate : ∀ h e, Safe cx κ (named ν) h (IsValueOf κ ν e) (evaluate e) (evaluate' e))
    (native : Native) (arguments : List Expr) :
    Safe cx κ (named ν) h (fun v h' => v.ExistsIn h') (callNative cx evaluate native arguments)
      (callNative cx evaluate' native arguments) :=
  .bind (safe_evaluateAll hevaluate arguments h) fun _ _ _ _ =>
    .bind (Q := fun _ _ => True) (.reads fun _ _ _ => trivial) fun _ _ _ _ =>
      .bind (.print _) fun _ _ _ _ => .pure fun _ _ => trivial

/-- A call of a function is safe, be it a routine or a native. -/
theorem safe_callFunction
    (hevaluate : ∀ h e, Safe cx κ (named ν) h (IsValueOf κ ν e) (evaluate e) (evaluate' e))
    (hinvoke : ∀ h routine arguments, Safe cx κ (named ν) h (fun v h' => v.ExistsIn h')
      (invoke routine arguments none) (invoke' routine arguments none))
    (name : String) (arguments : List Expr) :
    Safe cx κ (named ν) h (fun v h' => v.ExistsIn h')
      (callFunction cx evaluate invoke name arguments)
      (callFunction cx evaluate' invoke' name arguments) := by
  rw [callFunction, callFunction]
  split
  · split
    · exact .pure fun _ _ => trivial
    · exact .fail _
  · refine .bind (Q := fun _ _ => True) (.reads fun _ _ _ => trivial) fun routine h₁ _ _ => ?_
    rcases routine with _ | routine
    · refine .bind (Q := fun _ _ => True) (.reads fun _ _ _ => trivial) fun native h₂ _ _ => ?_
      rcases native with _ | native
      · exact .fail _
      · exact safe_callNative hevaluate native arguments
    · exact hinvoke h₁ routine arguments

/-- A dotted call is safe, and its receiver is there. -/
theorem safe_callMember
    (hevaluate : ∀ h e, Safe cx κ (named ν) h (IsValueOf κ ν e) (evaluate e) (evaluate' e))
    (hinvoke : ∀ h routine arguments receiver, (∀ ref, receiver = some ref → ref.ExistsIn h) →
      Safe cx κ (named ν) h (fun v h' => v.ExistsIn h') (invoke routine arguments receiver)
        (invoke' routine arguments receiver))
    (head : String) (path : List String) (arguments : List Expr) :
    Safe cx κ (named ν) h (fun v h' => v.ExistsIn h')
      (callMember cx evaluate invoke head path arguments)
      (callMember cx evaluate' invoke' head path arguments) := by
  refine .bind (Q := fun _ _ => True) (.reads fun _ _ _ => trivial) fun native h₁ _ _ => ?_
  rcases native with _ | native
  · refine .bind (Q := fun _ _ => True) (.reads fun _ _ _ => trivial) fun value h₂ _ _ => ?_
    split
    · refine .bind (Q := fun ref h' => ref.ExistsIn h')
        (.tryReads fun s ref hs _ href => hs.objectAt href) fun receiver h₃ _ hreceiver => ?_
      split
      · refine hinvoke h₃ _ arguments _ fun ref href => ?_
        cases href
        exact hreceiver
      · exact .fail _
    · exact .fail _
  · exact safe_callNative hevaluate native arguments

end

/-! ## Expressions -/

/-- Operators make no objects. -/
theorem BinaryOp.existsIn_of_apply {op : BinaryOp} {e : Expr} {l r v : Value} (h : Heap)
    (hv : op.apply e l r = .ok v) : v.ExistsIn h := by
  have hexactly : ∀ n : Option Integer, exactly e n = .ok v → v.ExistsIn h := by
    intro n hn
    cases n <;> cases hn
    trivial
  rw [apply.eq_def] at hv
  split at hv
  case h_4 | h_6 | h_8 => exact hexactly _ hv
  case h_10 | h_11 =>
    split at hv <;> cases hv
    trivial
  all_goals cases hv <;> trivial

/-- What a comparison gives refers to no object. -/
theorem RelationOp.existsIn_of_apply {op : RelationOp} {l r v : Value} (h : Heap)
    (hv : op.apply l r = .ok v) : v.ExistsIn h := by
  rw [apply.eq_def] at hv
  split at hv <;> cases hv <;> trivial

/-- What cannot be written to need only be there. -/
theorem safe_of_no_target {e : Expr} {m m' : Run Value} (htarget : e.target? = none)
    (hm : Safe cx κ (named ν) h (fun v h' => v.ExistsIn h') m m') :
    Safe cx κ (named ν) h (IsValueOf κ ν e) m m' := by
  refine hm.imp fun v h' _ hv => ⟨hv, fun target hsome => ?_⟩
  cases htarget.symm.trans hsome

/-- One step of evaluation. -/
theorem safe_evaluateStep (hc : calls.Safe cx κ calls') :
    ∀ e : Expr, Safe cx κ (named ν) h (IsValueOf κ ν e) (evaluateStep cx calls e)
      (evaluateStep cx calls' e)
  | .integer _ | .decimal _ _ _ | .string _ | .boolean _ =>
    safe_of_no_target rfl <| .pure fun _ _ => trivial
  | .var name => by
    refine .bind (Q := fun value h' => (∀ v, value = some v → IsValueOf κ ν (.var name) v h') ∧
      (value = none → κ.Allow name ν)) (.reads fun s hs hfits => ⟨fun v hv => ?_, fun hnone => ?_⟩)
      fun value h₁ _ hvalue => ?_
    · have hnames := fit_named_iff.mp hfits.scopes
      obtain ⟨hexists, hclass⟩ := hs.lookup? hv
      refine ⟨hexists, fun target htarget hcls => ?_⟩
      cases htarget
      exact ⟨name, rfl, hnames ▸ hclass hcls⟩
    · exact fit_named_iff.mp hfits.scopes ▸ State.IsSound.allow_of_lookup?_eq_none hnone
    · rcases value with _ | v
      · dsimp only
        split
        · refine .pure fun _ _ => ⟨trivial, fun target htarget _ => ?_⟩
          cases htarget
          exact ⟨name, rfl, hvalue.2 rfl⟩
        · exact .fail _
      · exact .pure fun _ hg => (hvalue.1 v rfl).mono hg
  | .member head path => by
    refine .tryReads fun s v hs hfits hv => ?_
    obtain ⟨hexists, hclass⟩ := hs.member hv
    refine ⟨hexists, fun target htarget hcls => ?_⟩
    cases htarget
    obtain ⟨rfl, hallow⟩ := hclass hcls
    exact ⟨head, rfl, fit_named_iff.mp hfits.scopes ▸ hallow⟩
  | .not operand => safe_of_no_target rfl <|
    .bind (hc.evaluate ν h operand) fun _ _ _ _ => .pure fun _ _ => trivial
  | .logic .or left right => by
    refine safe_of_no_target rfl <| .bind (hc.evaluate ν h left) fun l h₁ _ _ => ?_
    split
    · exact .pure fun _ _ => trivial
    · exact .bind (hc.evaluate ν h₁ right) fun _ _ _ _ => .pure fun _ _ => trivial
  | .logic .and left right => safe_of_no_target rfl <|
    .bind (hc.evaluate ν h left) fun _ h₁ _ _ =>
      .bind (hc.evaluate ν h₁ right) fun _ _ _ _ => .pure fun _ _ => trivial
  | .binary op left right => safe_of_no_target rfl <|
    .bind (hc.evaluate ν h left) fun l h₁ _ _ => .bind (hc.evaluate ν h₁ right) fun r h₂ _ _ =>
      .bind (Q := fun _ _ => True) (.ofExcept fun _ _ _ _ => trivial) fun _ _ _ _ =>
        .ofExcept fun _ h' _ hv => BinaryOp.existsIn_of_apply h' hv
  | .relation op _ left right => safe_of_no_target rfl <|
    .bind (hc.evaluate ν h left) fun l h₁ _ _ => .bind (hc.evaluate ν h₁ right) fun r h₂ _ _ =>
      .bind (Q := fun _ _ => True) (.ofExcept fun _ _ _ _ => trivial) fun _ _ _ _ =>
        .ofExcept fun _ h' _ hv => RelationOp.existsIn_of_apply h' hv
  | .call (.var name) arguments => safe_of_no_target rfl <|
    safe_callFunction (fun h e => hc.evaluate ν h e)
      (fun h routine arguments =>
        hc.invoke ν h routine arguments none fun _ hnone => by cases hnone) name arguments
  | .call (.member head path) arguments => safe_of_no_target rfl <|
    safe_callMember (fun h e => hc.evaluate ν h e)
      (fun h routine arguments receiver hreceiver =>
        hc.invoke ν h routine arguments receiver hreceiver) head path arguments
  | .methodCall head path arguments => safe_of_no_target rfl <|
    safe_callMember (fun h e => hc.evaluate ν h e)
      (fun h routine arguments receiver hreceiver =>
        hc.invoke ν h routine arguments receiver hreceiver) head path arguments

/-! ## Statements -/

/-- Evaluation in a scope that statements run in. -/
theorem Calls.Safe.evaluateIn (hc : calls.Safe cx κ calls') (h : Heap) (e : Expr) :
    Run.Safe cx κ (Scope.Has N :: named ν) h (fun v h' => v.ExistsIn h') (calls.evaluate e)
      (calls'.evaluate e) :=
  .inScope fun top => (hc.evaluate (top :: ν) h e).imp fun _ _ _ hv => hv.1

/-- Constructing is safe in the scope of a statement. -/
theorem Calls.Safe.constructIn (hc : calls.Safe cx κ calls') (h : Heap) (c : ClassDef)
    (hclass : cx.program.classes.get? c.name = some c) :
    Run.Safe cx κ (Scope.Has N :: named ν) h (fun ref h' => ref.ExistsIn h') (calls.construct c)
      (calls'.construct c) :=
  .inScope fun top => hc.construct (top :: ν) h c hclass

/-- What is skipped if a `return` is on its way out. -/
theorem safe_unlessReturning {Ψ : List (Scope → Prop)} {m m' : Run Unit}
    (hm : ∀ h, Safe cx κ Ψ h (fun _ _ => True) m m') :
    Safe cx κ Ψ h (fun _ _ => True)
      (do if ← Run.isReturning then return () else m)
      (do if ← Run.isReturning then return () else m') := by
  refine .bind (Q := fun _ _ => True) (.reads fun _ _ _ => trivial) fun returning h₁ _ _ => ?_
  split
  · exact .pure fun _ _ => trivial
  · exact hm h₁

/-- A list of statements is safe if each of them is. -/
theorem safe_executeAll {execute execute' : Stmt → Run Unit}
    (hexecute : ∀ h st, Safe cx κ (Scope.Has N :: named ν) h (fun _ _ => True) (execute st)
      (execute' st)) :
    ∀ (body : List Stmt) (h : Heap), Safe cx κ (Scope.Has N :: named ν) h (fun _ _ => True)
      (executeAll execute body) (executeAll execute' body)
  | [], _ => .pure fun _ _ => trivial
  | st :: rest, h =>
    .bind (hexecute h st) fun _ _ _ _ =>
      safe_unlessReturning fun h' => safe_executeAll hexecute rest h'

/-- A scope has all of no names. -/
theorem Scope.has_nil (s : Scope) : s.Has [] := fun _ hname => by cases hname

/-- A block is safe if its statements are. -/
theorem safe_executeBlock (hc : calls.Safe cx κ calls') (body : List Stmt) (h : Heap) :
    Safe cx κ (Scope.Has N :: named ν) h (fun _ _ => True) (executeBlock calls.execute body)
      (executeBlock calls'.execute body) :=
  .inScope fun top => .inBlock (Scope.has_nil {}) <|
    safe_executeAll (fun h st => hc.execute [] (top :: ν) h st) body h

include hnames in
/-- Assigning a value that is there is safe. -/
theorem safe_assign (hc : calls.Safe cx κ calls') (target : Target) {value : Value}
    (hvalue : value.ExistsIn h) :
    Safe cx κ (Scope.Has N :: named ν) h (fun _ _ => True) (assign cx calls.construct target value)
      (assign cx calls'.construct target value) := by
  have hwrite : ∀ (v : Value) (h : Heap), v.ExistsIn h ∧ ¬ v.IsClass →
      Safe cx κ (Scope.Has N :: named ν) h (fun _ _ => True) (Run.write target v)
        (Run.write target v) :=
    fun v h hv => .write stable_has_named hv.1 fun hcls => absurd hcls hv.2
  cases value with
  | cls name =>
    refine .bind (safe_constructNamed hnames hc.constructIn name) fun v h₁ _ hv => ?_
    cases target with
    | var x =>
      refine .bind (Q := fun _ _ => True) (.reads fun _ _ _ => trivial) fun known h₂ hg _ => ?_
      split
      · exact hwrite v h₂ ⟨hv.1.mono hg, hv.2⟩
      · exact .declare_of_not_class Scope.open_has (hv.1.mono hg) hv.2
    | member head path => exact hwrite v h₁ hv
  | _ => exact hwrite _ h ⟨hvalue, id⟩

include hnames in
/-- One step of a statement. -/
theorem safe_executeStep (hc : calls.Safe cx κ calls') :
    ∀ st : Stmt, Safe cx κ (Scope.Has N :: named ν) h (fun _ _ => True) (executeStep cx calls st)
      (executeStep cx calls' st)
  | .declare d =>
    .bind (safe_initialValue hnames hc.evaluateIn hc.constructIn d) fun v h₁ _ hv =>
      .declare_of_not_class Scope.open_has hv.1 hv.2
  | .assign target e =>
    .bind (hc.evaluateIn h e) fun v h₁ _ hv => safe_assign hnames hc target hv
  | .call e => .bind (hc.evaluateIn h e) fun _ _ _ _ => .pure fun _ _ => trivial
  | .ret e => .bind (hc.evaluateIn h e) fun _ _ _ hv => .setReturn hv
  | .ifThen condition body => .bind (hc.evaluateIn h condition) fun value h₁ _ _ => by
    split
    · exact safe_executeBlock hc body h₁
    · exact .pure fun _ _ => trivial
  | .ifElse condition body otherwise => .bind (hc.evaluateIn h condition) fun value h₁ _ _ => by
    split
    · exact safe_executeBlock hc body h₁
    · exact safe_executeBlock hc otherwise h₁
  | .loop condition body => .bind (hc.evaluateIn h condition) fun value h₁ _ _ => by
    split
    · exact .bind (safe_executeBlock hc body h₁) fun _ _ _ _ =>
        safe_unlessReturning fun h' => hc.execute N ν h' _
    · exact .pure fun _ _ => trivial
  | .block body => safe_executeBlock hc body h

/-! ## Objects -/

include hnames in
/-- Setting up the fields of a new object. -/
theorem safe_setUp (hc : calls.Safe cx κ calls') (c : ClassDef) :
    Safe cx κ (named ν) h (FieldsOf (c.fields.map Declaration.name))
      (calls.deeper <| Run.inBlock <|
        memberValues (initialValue cx calls.evaluate calls.construct) ∅ c.fields)
      (calls'.deeper <| Run.inBlock <|
        memberValues (initialValue cx calls'.evaluate calls'.construct) ∅ c.fields) := by
  have hempty : FieldsOf [] ∅ h := ⟨fun _ => ⟨id, id⟩, fun _ _ hv => by cases hv⟩
  exact hc.deeper (.inBlock (Scope.has_nil {}) (safe_memberValues Scope.open_has
    (fun h => safe_initialValue hnames hc.evaluateIn hc.constructIn) c.fields [] ∅ h hempty))

include hnames in
/-- One step of making an object. -/
theorem safe_constructStep (hc : calls.Safe cx κ calls') {c : ClassDef}
    (hclass : cx.program.classes.get? c.name = some c) :
    Safe cx κ (named ν) h (fun ref h' => ref.ExistsIn h') (constructStep cx calls c)
      (constructStep cx calls' c) :=
  .bind (safe_setUp hnames hc c) fun _ _ _ hfields =>
    .allocate ⟨c, Object.isOf_of_class hclass rfl hfields.names⟩ hfields.values

end

end ClassLang
