import ClassLang.Proofs.ByReference
import ClassLang.Proofs.Fitting
import ClassLang.Proofs.Parser.WellFormed
import ClassLang.Proofs.Reached

/-!
# What a call starts with

A call puts a scope on those of its caller and fills it: with the fields and the
methods of its object, and then with its parameters. What is in the scopes below
makes no difference. So the one thing that can go wrong is that the name of a
parameter is taken, by a field or by a parameter before it (`FirstTaken`).

An object has the fields that its class declares, in every state that is
reached. It can therefore be read off the program whether a routine can be
called: either each of its calls starts its body in a scope that has what it
should have (`Scope.IsFilled`, `BodyStarts`), or none gets that far
(`BodyRefused`).
-/

namespace ClassLang

/-! ## The first name that is taken -/

/-- The first of the names that is taken, at the start or by a name before
it. -/
def FirstTaken (taken names : List String) (name : String) : Prop :=
  ∃ before after, names = before ++ name :: after ∧ Unused taken before ∧
    (name ∈ taken ∨ name ∈ before)

section

variable {taken taken' names : List String} {name : String}

/-- Which names are unused depends on nothing but which ones are taken. -/
theorem Unused.congr (htaken : ∀ other, other ∈ taken ↔ other ∈ taken') :
    Unused taken names ↔ Unused taken' names :=
  and_congr_right fun _ => forall₂_congr fun other _ => not_congr (htaken other)

/-- The same holds of the first name that is taken. -/
theorem FirstTaken.congr (htaken : ∀ other, other ∈ taken ↔ other ∈ taken') :
    FirstTaken taken names name ↔ FirstTaken taken' names name :=
  exists₂_congr fun _ _ => and_congr_right fun _ =>
    and_congr (Unused.congr htaken) (or_congr_left (htaken name))

/-- There is one first name at most. -/
theorem FirstTaken.unique {other : String} (h : FirstTaken taken names name)
    (hother : FirstTaken taken names other) : name = other := by
  obtain ⟨before, after, rfl, hbefore, hname⟩ := h
  obtain ⟨before', after', heq, hbefore', hother⟩ := hother
  have hnot {first rest : List String} {name : String}
      (hunused : Unused taken (first ++ name :: rest)) : ¬ (name ∈ taken ∨ name ∈ first) := by
    rintro (htaken | hfirst)
    · exact hunused.2 name (by simp) htaken
    · exact (List.nodup_append.mp hunused.1).2.2 name hfirst name (List.mem_cons_self ..) rfl
  rcases List.append_eq_append_iff.mp heq with ⟨between, rfl, hrest⟩ | ⟨between, rfl, hrest⟩ <;>
    rcases between with _ | ⟨_, rest⟩ <;> obtain ⟨rfl, -⟩ := List.cons.inj hrest
  · rfl
  · exact absurd hname (hnot hbefore')
  · rfl
  · exact absurd hother (hnot hbefore)

/-- Unless all of the names can be used, there is a first one that cannot. -/
theorem exists_firstTaken (h : ¬ Unused taken names) : ∃ name, FirstTaken taken names name := by
  induction names generalizing taken with
  | nil => exact absurd unused_nil h
  | cons first rest ih =>
    by_cases hfirst : first ∈ taken
    · exact ⟨first, [], rest, rfl, unused_nil, .inl hfirst⟩
    · have hcons {others : List String} :
          Unused taken (first :: others) ↔ first ∉ taken ∧ Unused (first :: taken) others :=
        unused_cons_iff fun _ => List.mem_cons
      obtain ⟨name, before, after, rfl, hbefore, htaken⟩ :=
        ih fun hrest => h (hcons.mpr ⟨hfirst, hrest⟩)
      refine ⟨name, first :: before, after, rfl, hcons.mpr ⟨hfirst, hbefore⟩, ?_⟩
      rwa [List.mem_cons, or_left_comm, ← or_assoc, ← List.mem_cons]

end

/-! ## Filling a scope -/

/-- The state with one more scope, on top of the others. -/
def State.push (s : State) (top : Scope) : State :=
  { s with environment := { s.environment with inner := top :: s.environment.inner } }

/-- A table filled from a list has the names of the list, and those from before. -/
theorem Table.mem_names_foldl_insert {α : Type} {entries : List (String × α)} {t : Table α}
    {name : String} :
    name ∈ (entries.foldl (fun t entry => t.insert entry.1 entry.2) t).names
      ↔ name ∈ entries.map Prod.fst ∨ name ∈ t.names := by
  induction entries generalizing t with
  | nil => simp
  | cons entry rest ih => rw [List.foldl_cons, ih, mem_names_insert, List.map_cons, List.mem_cons,
      or_left_comm, or_assoc]

section

variable {s t : State} {top : Scope} {name : String} {v : Value} {entries : List (String × Value)}

/-- A new name is declared in the scope on top, and nothing else changes. -/
theorem declare_push (hname : name ∉ top.vars.names) :
    Run.declare name v (s.push top)
      = some (.ok (), s.push { top with vars := top.vars.insert name v }) := by
  have hfree : ¬ top.vars.contains name = true := fun h => hname ((Table.mem_names_iff _).mpr h)
  simp only [Run.declare, Run.tryModify, Environment.declare, State.push, Scope.declare, hfree]
  rfl

/-- A name of the scope on top is refused, and nothing changes. -/
theorem declare_push_of_mem (hname : name ∈ top.vars.names) :
    Run.declare name v (s.push top) = some (.error (.alreadyDeclared name), s.push top) := by
  have htaken : top.vars.contains name = true := (Table.mem_names_iff _).mp hname
  simp only [Run.declare, Run.tryModify, Environment.declare, State.push, Scope.declare, htaken]
  rfl

/-- Names that can be used become variables of the innermost scope. -/
theorem declareAll_push (h : Unused top.vars.names (entries.map Prod.fst)) :
    Run.declareAll entries (s.push top) = some (.ok (), s.push { top with
      vars := entries.foldl (fun t entry => t.insert entry.1 entry.2) top.vars }) := by
  induction entries generalizing top with
  | nil => rfl
  | cons entry rest ih =>
    obtain ⟨hname, hrest⟩ := (unused_cons_iff fun _ => Table.mem_names_insert).mp h
    exact (Run.bind_of_ok (declare_push hname)).trans (ih hrest)

/-- Where a first list can be declared, both are declared one after the other. -/
theorem declareAll_append_of_ok {others : List (String × Value)}
    (h : Run.declareAll entries s = some (.ok (), t)) :
    Run.declareAll (entries ++ others) s = Run.declareAll others t := by
  induction entries generalizing s with
  | nil =>
    cases h
    rfl
  | cons entry rest ih =>
    obtain ⟨⟨⟩, u, hdeclare, hrest⟩ := Run.bind_eq_ok h
    exact (Run.bind_of_ok hdeclare).trans (ih hrest)

/-- Declaring stops at the first name that is taken. -/
theorem declareAll_push_of_firstTaken
    (h : FirstTaken top.vars.names (entries.map Prod.fst) name) :
    ∃ top', Run.declareAll entries (s.push top)
      = some (.error (.alreadyDeclared name), s.push top') := by
  obtain ⟨before, after, heq, hunused, htaken⟩ := h
  obtain ⟨first, others, rfl, rfl, hothers⟩ := List.map_eq_append_iff.mp heq
  obtain ⟨⟨_, v⟩, rest, rfl, rfl, -⟩ := List.map_eq_cons_iff.mp hothers
  rw [declareAll_append_of_ok (declareAll_push hunused)]
  exact ⟨_, Run.bind_of_error (declare_push_of_mem (Table.mem_names_foldl_insert.mpr htaken.symm))⟩

/-- The methods of an object all get into the scope on top. -/
theorem declareMethods_push {routines : List Routine} :
    Run.declareMethods routines (s.push top) = some (.ok (), s.push { top with
      methods := routines.foldl (fun t m => t.insert m.name m) top.methods }) := by
  induction routines generalizing top with
  | nil => rfl
  | cons m rest ih => exact ih

end

/-! ## The scope of a call -/

/-- The class of the object that a call is on. -/
def Context.receiverClass? (cx : Context) (receiver : Option Ref) : Option ClassDef :=
  receiver.bind cx.classOf?

/-- The names of the fields that the class declares of the object that a call is
on. Without an object there are none. -/
def Context.fieldNames (cx : Context) (receiver : Option Ref) : List String :=
  (cx.receiverClass? receiver).elim [] fun c => c.fields.map Declaration.name

/-- The names of the parameters differ from one another and from those of the
fields. -/
def Routine.CanStart (cx : Context) (routine : Routine) (receiver : Option Ref) : Prop :=
  Unused (cx.fieldNames receiver) (routine.parameters.map Parameter.name)

/-- What the scope of a call has before its parameters: the fields and the
methods of the object it is on. -/
def Context.objectScope (cx : Context) (h : Heap) (receiver : Option Ref) : Scope where
  vars := receiver.elim ∅ h.fields
  methods := (cx.receiverClass? receiver).elim ∅ ClassDef.methodTable

/-- Inserting the methods of a class once more yields its table of methods. -/
theorem ClassDef.foldl_insert_methodTable (c : ClassDef) :
    c.methodTable.values.foldl (fun t m => t.insert m.name m) ∅ = c.methodTable := by
  rw [Table.values, List.foldl_map]
  refine Eq.trans (List.foldl_ext _ _ _ fun t entry hentry => ?_) c.methodTable.ofList_entries
  rw [(Table.mem_entries_ofList_named hentry).1]

/-- The methods of a class can be told apart by their names. -/
theorem ClassDef.get?_methodTable_eq_some_iff {c : ClassDef} (hc : c.memberNames.Nodup)
    {name : String} {m : Routine} :
    c.methodTable.get? name = some m ↔ m ∈ c.methods ∧ m.name = name := by
  have hmethods : (c.methods.map Routine.name).Nodup := (List.nodup_append.mp hc).2.1
  rw [← Table.mem_entries_iff, methodTable, Table.mem_entries_ofList_named_iff hmethods, and_comm]

section

variable {cx : Context} {routine : Routine} {values : List Value} {receiver : Option Ref}

/-- In the scope of a call its object comes first, and then the parameters. -/
theorem bindCall_push (s : State) :
    bindCall cx routine values receiver (s.push {})
      = Run.declareAll (routine.passed values) (s.push (cx.objectScope s.heap receiver)) := by
  cases receiver with
  | none => rfl
  | some ref =>
    have hread : Run.reads (·.heap.fields ref) (s.push {})
        = some (.ok (s.heap.fields ref), s.push {}) := rfl
    have hfields : Run.declareAll (s.heap.fields ref).entries (s.push {})
        = some (.ok (), s.push { vars := s.heap.fields ref }) := by
      have hunused : Unused ({} : Scope).vars.names ((s.heap.fields ref).entries.map Prod.fst) :=
        unused_of_nodup (s.heap.fields ref).nodup_names
      have hall : (s.heap.fields ref).entries.foldl (fun t entry => t.insert entry.1 entry.2)
          ({} : Scope).vars = s.heap.fields ref := Table.ofList_entries _
      rw [declareAll_push hunused, hall]
    have hmethods : Run.declareMethods (cx.methodsOf ref) (s.push { vars := s.heap.fields ref })
        = some (.ok (), s.push (cx.objectScope s.heap (some ref))) := by
      rw [declareMethods_push, Context.methodsOf, Context.objectScope, Context.receiverClass?,
        Option.bind_some]
      cases cx.classOf? ref with
      | none => rfl
      | some c => rw [Option.elim_some, Option.elim_some, c.foldl_insert_methodTable]; rfl
    rw [bindCall]
    exact (Run.bind_of_ok hread).trans ((Run.bind_of_ok hfields).trans (Run.bind_of_ok hmethods))

end

/-- The scope of a call is filled as it should be. -/
structure Scope.IsFilled (cx : Context) (h : Heap) (routine : Routine) (values : List Value)
    (receiver : Option Ref) (top : Scope) : Prop where
  /-- what its variables hold: what the fields of the object do, and the
  arguments -/
  vars : ∀ name v, top.vars.get? name = some v ↔
    (∃ ref, receiver = some ref ∧ h.field? ref name = some v) ∨ (name, v) ∈ routine.passed values
  /-- their names: those of the fields that the class declares, and those of the
  parameters -/
  names : ∀ name, name ∈ top.vars.names ↔
    name ∈ cx.fieldNames receiver ∨ name ∈ routine.parameters.map Parameter.name
  /-- its routines: the methods of the class -/
  methods : ∀ name m, top.methods.get? name = some m ↔
    ∃ c, cx.receiverClass? receiver = some c ∧ m ∈ c.methods ∧ m.name = name

/-- The state in which a call fills its scope. -/
def State.enterCall (s : State) : State := State.push { s with depth := s.depth + 1 } {}

/-- The state when the scope of a call has been closed. -/
def State.leaveCall (s : State) : State :=
  { s with environment := s.environment.leaveCall.2, depth := s.depth - 1 }

/-- A call starts its body in a state, and goes on as the body does. -/
structure BodyStarts (cx : Context) (fuel : Nat) (routine : Routine) (arguments : List Expr)
    (receiver : Option Ref) (s : State) (values : List Value) (opened bound : State) : Prop where
  /-- the scope can be filled -/
  bind : bindCall cx routine values receiver opened.enterCall = some (.ok (), bound)
  /-- the call gets to the end of its body if the body ends -/
  ends : ∀ ended, BodyEnds cx fuel routine arguments receiver s values opened ended ↔
    executeAll (execute cx fuel) routine.body bound = some (.ok (), ended)
  /-- it fails if the body does -/
  fails : ∀ e t, executeAll (execute cx fuel) routine.body bound = some (.error e, t) →
    invoke cx (fuel + 1) routine arguments receiver s = some (.error e, t.leaveCall)
  /-- it has no outcome if the body has none -/
  outOfFuel : executeAll (execute cx fuel) routine.body bound = none →
    invoke cx (fuel + 1) routine arguments receiver s = none

/-- A call does not get to its body, because a name is taken. -/
structure BodyRefused (cx : Context) (fuel : Nat) (routine : Routine) (arguments : List Expr)
    (receiver : Option Ref) (s : State) (values : List Value) (opened : State) (name : String) :
    Prop where
  /-- the scope cannot be filled -/
  bind : ∃ t, bindCall cx routine values receiver opened.enterCall
    = some (.error (.alreadyDeclared name), t)
  /-- what statements do makes no difference -/
  body : ∀ calls bindings, ∃ t, callBody cx calls routine values receiver bindings opened.enterCall
    = some (.error (.alreadyDeclared name), t)
  /-- the call fails, and nothing has changed since its arguments had values; no
  `return` is on its way out -/
  fails : invoke cx (fuel + 1) routine arguments receiver s
    = some (.error (.alreadyDeclared name),
      { opened with environment := { opened.environment with pendingReturn := none } })

section

variable {cx : Context} {fuel : Nat} {routine : Routine} {arguments : List Expr}
  {receiver : Option Ref} {values : List Value} {s opened : State}

/-! ## Filled scopes -/

/-- The scope of an object starts with the fields of the receiver. -/
theorem Context.names_objectScope (cx : Context) (h : Heap) (receiver : Option Ref) :
    (cx.objectScope h receiver).vars.names = h.receiverFields receiver := by
  cases receiver <;> rfl

/-- A scope that could be filled is filled as it should be. -/
theorem isFilled_of_unused {h : Heap}
    (hfields : ∀ name, name ∈ h.receiverFields receiver ↔ name ∈ cx.fieldNames receiver)
    (hmembers : ∀ c, cx.receiverClass? receiver = some c → c.memberNames.Nodup)
    (hcheck : routine.checkArguments values = .ok ())
    (hunused : Unused (h.receiverFields receiver) (routine.parameters.map Parameter.name)) :
    Scope.IsFilled cx h routine values receiver { cx.objectScope h receiver with
      vars := (routine.passed values).foldl (fun t entry => t.insert entry.1 entry.2)
        (cx.objectScope h receiver).vars } := by
  have hpassed := Routine.map_fst_passed hcheck
  have hpairwise : (routine.passed values).Pairwise fun a b => a.1 ≠ b.1 :=
    List.pairwise_map.mp (hpassed ▸ hunused.1)
  have hobject (name : String) (v : Value) : (cx.objectScope h receiver).vars.get? name = some v ↔
      ∃ ref, receiver = some ref ∧ h.field? ref name = some v := by
    cases receiver with
    | none => simp [Context.objectScope]
    | some ref => simp [Context.objectScope, Heap.field?]
  refine ⟨fun name v => ?_, fun name => ?_, fun name m => ?_⟩
  · rw [Table.get?_foldl_insert name _ _ hpairwise, Option.or_eq_some_iff,
      Table.find?_eq_some_iff hpairwise, hobject, or_comm]
    refine or_congr_left (and_iff_right_of_imp ?_)
    rintro ⟨ref, hreceiver, hv⟩
    -- The name of a field is no name of a parameter.
    refine Table.find?_eq_none_of_forall_ne fun entry hentry heq => hunused.2 name ?_ ?_
    · exact hpassed ▸ heq ▸ List.mem_map_of_mem hentry
    · rw [← cx.names_objectScope, Table.mem_names_iff, Table.contains,
        (hobject name v).mpr ⟨ref, hreceiver, hv⟩]
      rfl
  · rw [Table.mem_names_foldl_insert, hpassed, cx.names_objectScope, hfields, or_comm]
  · change ((cx.receiverClass? receiver).elim ∅ ClassDef.methodTable).get? name = some m ↔ _
    rcases hclass : cx.receiverClass? receiver with _ | c
    · simp
    · simp [ClassDef.get?_methodTable_eq_some_iff (hmembers c hclass)]

/-- Whatever refers to an object has the class of the object. -/
theorem State.IsSound.exists_classOf {κ : Marks} (hs : s.IsSound cx κ) {ref : Ref}
    (href : ref.ExistsIn s.heap) :
    ∃ o c, s.heap.object? ref.location = some o ∧ cx.classOf? ref = some c ∧ o.IsOf cx c := by
  obtain ⟨o, ho, hclass⟩ := href
  obtain ⟨c, hc⟩ := hs.heap.objects _ o ho
  refine ⟨o, c, ho, ?_, hc⟩
  rw [Context.classOf?, ← hclass, hc.classes]

/-- An object has the fields that its class declares. -/
theorem State.IsSound.mem_receiverFields_iff {κ : Marks} (hs : s.IsSound cx κ)
    (hreceiver : ∀ ref, receiver = some ref → ref.ExistsIn s.heap) {name : String} :
    name ∈ s.heap.receiverFields receiver ↔ name ∈ cx.fieldNames receiver := by
  cases receiver with
  | none => rfl
  | some ref =>
    obtain ⟨o, c, ho, hclass, hc⟩ := hs.exists_classOf (hreceiver ref rfl)
    simpa [Heap.receiverFields, Heap.fields, ho, Context.fieldNames, Context.receiverClass?, hclass]
      using hc.fields name

/-! ## From the arguments to the body -/

/-- Below the limit a call runs its body one level deeper and then leaves that
level. -/
theorem deeper_inCall {α : Type} {limit : Nat} (m : Run α) (hdepth : opened.depth < limit) :
    Run.deeper limit (Run.inCall m) opened = (m opened.enterCall).map fun x =>
      (x.1.map (·, x.2.environment.leaveCall.1), x.2.leaveCall) := by
  rw [Run.deeper, if_neg (Nat.not_le_of_lt hdepth), Run.inCall]
  dsimp only [State.enterCall, State.push, Environment.startBlock]
  rcases m _ with _ | ⟨r, t⟩ <;> rfl

section

variable
  (harguments : evaluateAll (evaluate cx fuel) arguments s = some (.ok values, opened))
  (hcheck : routine.checkArguments values = .ok ()) (hdepth : opened.depth < cx.maxDepth)
include harguments hcheck hdepth

/-- Once the arguments of a call have been checked, and nesting allows it, the
call fails if something fails in its scope, and has no outcome if nothing there
has one. -/
theorem invoke_of_callBody (outcome : Option (RuntimeError × State))
    (hbody : ∀ bindings, callBody cx (callsAt cx fuel) routine values receiver bindings
      opened.enterCall = outcome.map fun x => (.error x.1, x.2)) :
    invoke cx (fuel + 1) routine arguments receiver s
      = outcome.map fun x => (.error x.1, x.2.leaveCall) := by
  let bindings := routine.visibleBindings arguments opened.environment
  have hchecked : Run.ofExcept (routine.checkArguments values) opened = some (.ok (), opened) := by
    rw [Run.ofExcept, hcheck]
  have hread : Run.reads (fun s => routine.visibleBindings arguments s.environment) opened
      = some (.ok bindings, opened) := rfl
  refine (Run.bind_of_ok harguments).trans ((Run.bind_of_ok hchecked).trans ?_)
  refine (Run.bind_of_ok hread).trans ?_
  have hcall : Run.deeper cx.maxDepth
      (Run.inCall (callBody cx (callsAt cx fuel) routine values receiver bindings)) opened = _ :=
    deeper_inCall _ hdepth
  rw [hbody] at hcall
  rcases outcome with _ | ⟨e, t⟩
  · exact Run.bind_of_none hcall
  · exact Run.bind_of_error hcall

/-- When the scope of a call has been filled, its body starts. -/
theorem bodyStarts_of_bindCall {bound : State}
    (hbind : bindCall cx routine values receiver opened.enterCall = some (.ok (), bound)) :
    BodyStarts cx fuel routine arguments receiver s values opened bound where
  bind := hbind
  ends ended := by
    have hstart := Run.bind_of_ok (f := fun _ => executeAll (execute cx fuel) routine.body) hbind
    exact ⟨fun h => hstart.symm.trans h.body,
      fun h => ⟨harguments, hcheck, hdepth, hstart.trans h⟩⟩
  fails e t hbody := invoke_of_callBody harguments hcheck hdepth (some (e, t))
    fun _ => (Run.bind_of_ok hbind).trans (Run.bind_of_error hbody)
  outOfFuel hbody := invoke_of_callBody harguments hcheck hdepth none
    fun _ => (Run.bind_of_ok hbind).trans (Run.bind_of_none hbody)

/-- When the scope of a call cannot be filled, its body does not start. -/
theorem bodyRefused_of_bindCall {name : String} {top : Scope}
    (hbind : bindCall cx routine values receiver opened.enterCall
      = some (.error (.alreadyDeclared name),
          State.push { opened with depth := opened.depth + 1 } top)) :
    BodyRefused cx fuel routine arguments receiver s values opened name where
  bind := ⟨_, hbind⟩
  body _ _ := ⟨_, Run.bind_of_error hbind⟩
  fails := invoke_of_callBody harguments hcheck hdepth (some (.alreadyDeclared name, _))
    fun _ => Run.bind_of_error hbind

variable (hfields : ∀ name, name ∈ opened.heap.receiverFields receiver ↔
  name ∈ cx.fieldNames receiver)
include hfields

/-- If no name is used, the body starts in a scope that is filled as it should
be. -/
theorem exists_bodyStarts (hcan : routine.CanStart cx receiver)
    (hmembers : ∀ c, cx.receiverClass? receiver = some c → c.memberNames.Nodup) :
    ∃ top, top.IsFilled cx opened.heap routine values receiver ∧
      BodyStarts cx fuel routine arguments receiver s values opened
        (State.push { opened with depth := opened.depth + 1 } top) := by
  have hunused : Unused (opened.heap.receiverFields receiver)
      (routine.parameters.map Parameter.name) := (Unused.congr hfields).mpr hcan
  refine ⟨_, isFilled_of_unused hfields hmembers hcheck hunused, ?_⟩
  refine bodyStarts_of_bindCall harguments hcheck hdepth
    ((bindCall_push _).trans (declareAll_push ?_))
  rwa [Routine.map_fst_passed hcheck, cx.names_objectScope]

/-- If a name is used, the body is refused, on account of the first of them. -/
theorem exists_bodyRefused (hcannot : ¬ routine.CanStart cx receiver) :
    ∃ name, FirstTaken (cx.fieldNames receiver) (routine.parameters.map Parameter.name) name ∧
      BodyRefused cx fuel routine arguments receiver s values opened name := by
  obtain ⟨name, hfirst⟩ := exists_firstTaken hcannot
  have hpassed : FirstTaken (cx.objectScope opened.heap receiver).vars.names
      ((routine.passed values).map Prod.fst) name := by
    rw [Routine.map_fst_passed hcheck, cx.names_objectScope]
    exact (FirstTaken.congr hfields).mpr hfirst
  obtain ⟨top, hdeclare⟩ := declareAll_push_of_firstTaken hpassed
  exact ⟨name, hfirst,
    bodyRefused_of_bindCall harguments hcheck hdepth ((bindCall_push _).trans hdeclare)⟩

end

end

/-- **Whether the body of a call starts can be read off the program.** In a
parsed program, and in any state that its runs reach, let the arguments of a
call have values that fit the parameters, and let nesting allow the call. If the
names of the parameters differ from one another and from those of the fields
that the class of the object declares, the body starts in a scope that has just
these variables, whatever the scopes of the caller have, and the methods of the
class. If not, filling the scope fails with the first name that is taken, and no
statement is executed. Without an object there are no fields and no methods. -/
theorem bodies_start_iff_names_unused {tokens : List Token} {p : Program}
    (hp : parseProgram tokens = .ok p) {limit : Nat} {natives : List Native} {s : State}
    (hs : s.IsReached p limit natives) {routine : Routine} {receiver : Option Ref}
    (hreceiver : ∀ ref, receiver = some ref → ref.ExistsIn s.heap) {fuel : Nat}
    {arguments : List Expr} {values : List Value} {opened : State}
    (harguments : evaluateAll (evaluate ⟨p, limit⟩ fuel) arguments s = some (.ok values, opened))
    (hcheck : routine.checkArguments values = .ok ()) (hdepth : opened.depth < limit) :
    (∀ ref, receiver = some ref → ∃ c, p.classes.get? ref.className = some c) ∧
    ((∃ e t, bindCall ⟨p, limit⟩ routine values receiver opened.enterCall = some (.error e, t)) ↔
      ¬ routine.CanStart ⟨p, limit⟩ receiver) ∧
    (routine.CanStart ⟨p, limit⟩ receiver →
      ∃ top, top.IsFilled ⟨p, limit⟩ opened.heap routine values receiver ∧
        BodyStarts ⟨p, limit⟩ fuel routine arguments receiver s values opened
          (State.push { opened with depth := opened.depth + 1 } top)) ∧
    (¬ routine.CanStart ⟨p, limit⟩ receiver →
      ∃ name, FirstTaken (Context.fieldNames ⟨p, limit⟩ receiver)
          (routine.parameters.map Parameter.name) name ∧
        BodyRefused ⟨p, limit⟩ fuel routine arguments receiver s values opened name) := by
  let cx : Context := ⟨p, limit⟩
  obtain ⟨κ, hsound⟩ := hs.isSound (namesClasses_of_parseProgram hp)
  have hclasses : ∀ ref, receiver = some ref → ∃ c, p.classes.get? ref.className = some c := by
    intro ref href
    obtain ⟨_, c, -, hclass, -⟩ := hsound.exists_classOf (hreceiver ref href)
    exact ⟨c, hclass⟩
  have hmembers : ∀ c, cx.receiverClass? receiver = some c → c.memberNames.Nodup := by
    intro c hc
    obtain ⟨ref, -, hclass⟩ := Option.bind_eq_some_iff.mp hc
    exact (Program.isShaped (wellFormed_of_parseProgram hp)).members _ c hclass
  -- The arguments can make objects and change fields, but not which fields there are.
  have hfields : ∀ name, name ∈ opened.heap.receiverFields receiver ↔
      name ∈ cx.fieldNames receiver := by
    intro name
    rw [(fits_evaluateAll harguments).heap.receiverFields_eq hreceiver]
    exact hsound.mem_receiverFields_iff hreceiver
  have hstarts (hcan : routine.CanStart cx receiver) :=
    exists_bodyStarts harguments hcheck hdepth hfields hcan hmembers
  have hrefused (hcannot : ¬ routine.CanStart cx receiver) :=
    exists_bodyRefused harguments hcheck hdepth hfields hcannot
  refine ⟨hclasses, ⟨?_, fun hcannot => ?_⟩, hstarts, hrefused⟩
  · rintro ⟨e, t, hfails⟩ hcan
    obtain ⟨top, -, hbody⟩ := hstarts hcan
    cases hfails.symm.trans hbody.bind
  · obtain ⟨name, -, ⟨t, hrefuses⟩, -⟩ := hrefused hcannot
    exact ⟨_, t, hrefuses⟩

/-- A method that can be called. -/
def adds : Routine where
  returns := .void
  name := "add"
  parameters := [{ type := .integer, name := "amount", byReference := false }]
  body := [.assign (.var "balance") (.binary .add (.var "balance") (.var "amount"))]

/-- A method that cannot be called: one of its parameters has the name of a
field, and two have one name. -/
def clashes : Routine where
  returns := .void
  name := "put"
  parameters := [
    { type := .integer, name := "amount", byReference := false },
    { type := .integer, name := "balance", byReference := false },
    { type := .integer, name := "amount", byReference := true }]
  body := []

/-- A function that makes an object. -/
def opensAccount : Routine where
  returns := .void
  name := "main"
  parameters := []
  body := [.declare { type := .cls "Account", name := "opened", initial := none }]

/-- A program that makes an object with the two methods. -/
def accounts : Program where
  functions := .ofList [("main", opensAccount)]
  classes := .ofList [("Account", {
    name := "Account"
    fields := [{ type := .integer, name := "balance", initial := none }]
    methods := [adds, clashes] })]

/-- The tokens of the program, somewhere. -/
def accountsTokens : List Token :=
  (accounts.kinds ++ [Kind.stop]).map fun kind => { kind, lexeme := "", start := {}, stop := {} }

/-- Behind a run the one method can be called on the object, and the other
cannot. -/
theorem bodies_start_iff_names_unused_accounts :
    parseProgram accountsTokens = .ok accounts ∧
    ∃ s, s.IsReached accounts 9 [] ∧ s.depth < 9 ∧
      (∀ ref, some (⟨"Account", 0⟩ : Ref) = some ref → ref.ExistsIn s.heap) ∧
      (∃ top, top.IsFilled ⟨accounts, 9⟩ s.heap adds [.integer ⟨5, inRange_five⟩]
          (some ⟨"Account", 0⟩) ∧
        BodyStarts ⟨accounts, 9⟩ 9 adds [.integer ⟨5, inRange_five⟩] (some ⟨"Account", 0⟩) s
          [.integer ⟨5, inRange_five⟩] s (State.push { s with depth := s.depth + 1 } top)) ∧
      BodyRefused ⟨accounts, 9⟩ 9 clashes (.replicate 3 (.integer ⟨5, inRange_five⟩))
        (some ⟨"Account", 0⟩) s (.replicate 3 (.integer ⟨5, inRange_five⟩)) s "balance" := by
  have hparse : parseProgram accountsTokens = .ok accounts := by
    obtain ⟨rest, hreads, hstop⟩ := textKinds_eq_iff.mp
      (show textKinds accountsTokens = accounts.kinds by decide)
    exact parseProgram_of_isProgram (accounts.isProgram_kinds (by decide)) hreads hstop
  have hends : ((runMain ⟨accounts, 9⟩ 12 (.ready accounts [])).bind fun (_, s) =>
      (s.heap.object? 0).map fun o => (o.className, s.depth)) = some ("Account", 0) := by
    decide +kernel
  obtain ⟨⟨_, s⟩, hrun, hobject⟩ := Option.bind_eq_some_iff.mp hends
  obtain ⟨o, ho, hclass⟩ := Option.map_eq_some_iff.mp hobject
  obtain ⟨hclass, hdepth⟩ := Prod.mk.inj hclass
  let start : State := { s with output := "" }
  have hmain : accounts.functions.get? "main" = some opensAccount := rfl
  have hreached : start.IsReached accounts 9 [] :=
    State.StartsRun.isReached hmain (.again .first hrun)
  have hreceiver : ∀ ref, some (⟨"Account", 0⟩ : Ref) = some ref → ref.ExistsIn start.heap := by
    rintro ref ⟨⟩
    exact ⟨o, ho, hclass⟩
  have hlimit : start.depth < 9 := by
    change s.depth < 9
    rw [hdepth]
    decide
  have hone : evaluateAll (evaluate ⟨accounts, 9⟩ 9) [.integer ⟨5, inRange_five⟩] start
      = some (.ok [.integer ⟨5, inRange_five⟩], start) := rfl
  have hthree : evaluateAll (evaluate ⟨accounts, 9⟩ 9) (.replicate 3 (.integer ⟨5, inRange_five⟩))
      start = some (.ok (.replicate 3 (.integer ⟨5, inRange_five⟩)), start) := rfl
  have hadds : adds.checkArguments [.integer ⟨5, inRange_five⟩] = .ok () := rfl
  have hclashes : clashes.checkArguments (.replicate 3 (.integer ⟨5, inRange_five⟩)) = .ok () := rfl
  obtain ⟨-, -, hstarts, -⟩ :=
    bodies_start_iff_names_unused hparse hreached hreceiver hone hadds hlimit
  obtain ⟨-, -, -, hrefused⟩ :=
    bodies_start_iff_names_unused hparse hreached hreceiver hthree hclashes hlimit
  obtain ⟨name, hfirst, hbody⟩ := hrefused fun h => absurd h.1 (by decide)
  have hbalance : FirstTaken ["balance"] ["amount", "balance", "amount"] "balance" :=
    ⟨["amount"], ["amount"], rfl, ⟨by decide, by decide⟩, .inl (by decide)⟩
  obtain rfl : name = "balance" := hfirst.unique hbalance
  exact ⟨hparse, start, hreached, hlimit, hreceiver, hstarts ⟨by decide, by decide⟩, hbody⟩

end ClassLang
