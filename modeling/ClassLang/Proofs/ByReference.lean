import ClassLang.Proofs.CopyBack
import ClassLang.Proofs.Levels
import ClassLang.Proofs.SafeCalls

/-!
# Parameters by reference

A call that gets to the end of its body (`BodyEnds`) reads the final values of
its parameters by reference, and of the fields of its object, in its own scope.
They are all there: the scope was filled with them, and nothing a body does
takes a variable away. Names that also belong to variables of the caller do no
harm.

What happens then is writing. If the targets of the call are variables, and
different ones, each gets the final value of its own parameter, and no other
variable changes (`WrittenBack`).
-/

namespace ClassLang

/-! ## Targets -/

namespace Routine

/-- The argument at a place is a target of the call: it stands at a parameter by
reference, and names a member or a variable in sight. -/
structure TargetAt (r : Routine) (arguments : List Expr) (e : Environment) (i : Nat)
    (p : Parameter) (target : Target) : Prop where
  /-- the parameter at the place -/
  parameter : r.parameters[i]? = some p
  /-- it is by reference -/
  byReference : p.byReference = true
  /-- the argument at the place -/
  argument : arguments[i]?.bind Expr.target? = some target
  /-- a variable is in sight -/
  visible : ∀ x, target = .var x → e.contains x = true

/-- The targets of the call are variables, and different ones. -/
structure HasPlainTargets (r : Routine) (arguments : List Expr) (e : Environment) : Prop where
  /-- they are variables -/
  plain : ∀ {i p target}, r.TargetAt arguments e i p target → ∃ x, target = .var x
  /-- no two are the same -/
  distinct : ∀ {i j p q target}, r.TargetAt arguments e i p target →
    r.TargetAt arguments e j q target → i = j

/-- The bindings of a call that can be written to. -/
def visibleBindings (r : Routine) (arguments : List Expr) (e : Environment) : List Binding :=
  (r.bindings arguments).filter (·.isVisible e)

variable {r : Routine} {arguments : List Expr} {e e' : Environment} {i : Nat} {p : Parameter}
  {target : Target} {b : Binding}

/-- A binding is visible exactly if its target is a path or a variable in scope. -/
theorem isVisible_iff : b.isVisible e = true ↔ ∀ x, b.target = .var x → e.contains x = true := by
  rw [Binding.isVisible]
  cases b.target with
  | var x => exact ⟨fun h y hy => Target.var.inj hy ▸ h, fun h => h x rfl⟩
  | member head path => exact ⟨fun _ y hy => (by cases hy), fun _ => rfl⟩

/-- The bindings that can be written to are those of the targets. -/
theorem mem_visibleBindings_iff :
    b ∈ r.visibleBindings arguments e
      ↔ ∃ i p, r.TargetAt arguments e i p b.target ∧ p.name = b.parameter := by
  rw [visibleBindings, List.mem_filter, isVisible_iff]
  constructor
  · rintro ⟨hb, hvisible⟩
    obtain ⟨⟨p, argument⟩, hmem, hbinding⟩ := List.mem_filterMap.mp hb
    obtain ⟨i, hi⟩ := List.mem_iff_getElem?.mp hmem
    obtain ⟨hp, hargument⟩ := List.getElem?_zip_eq_some.mp hi
    change binding? p argument = some b at hbinding
    rw [binding?] at hbinding
    split at hbinding
    · next hreference =>
      obtain ⟨target, htarget, rfl⟩ := Option.map_eq_some_iff.mp hbinding
      exact ⟨i, p, ⟨hp, hreference, Option.bind_eq_some_iff.mpr ⟨argument, hargument, htarget⟩,
        hvisible⟩, rfl⟩
    · cases hbinding
  · rintro ⟨i, p, ⟨hp, hreference, hargument, hvisible⟩, hname⟩
    obtain ⟨argument, hargument, htarget⟩ := Option.bind_eq_some_iff.mp hargument
    refine ⟨List.mem_filterMap.mpr ⟨(p, argument), ?_, ?_⟩, hvisible⟩
    · exact List.mem_of_getElem? (List.getElem?_zip_eq_some.mpr ⟨hp, hargument⟩)
    · change binding? p argument = some b
      rw [binding?, if_pos hreference, htarget, Option.map_some, hname]

/-- Different variables are different targets. -/
theorem HasPlainTargets.of_nodup {xs : List String} (hxs : xs.Nodup) :
    r.HasPlainTargets (xs.map Expr.var) e := by
  have hname : ∀ {i p target}, r.TargetAt (xs.map Expr.var) e i p target →
      ∃ x, xs[i]? = some x ∧ target = .var x := by
    intro i p target h
    obtain ⟨argument, hargument, htarget⟩ := Option.bind_eq_some_iff.mp h.argument
    rw [List.getElem?_map] at hargument
    obtain ⟨x, hx, rfl⟩ := Option.map_eq_some_iff.mp hargument
    exact ⟨x, hx, (Option.some.inj htarget).symm⟩
  refine ⟨fun h => (hname h).imp fun _ hx => hx.2, fun {i j} _ _ _ h h' => ?_⟩
  obtain ⟨x, hi, rfl⟩ := hname h
  obtain ⟨y, hj, heq⟩ := hname h'
  cases heq
  obtain ⟨hlt, -⟩ := List.getElem?_eq_some_iff.mp hi
  exact (List.getElem?_inj hlt hxs).mp (hi.trans hj.symm)

/-- Which variables are in sight depends on their names only. -/
theorem TargetAt.congr (hnames : namesOf e'.scopes = namesOf e.scopes)
    (h : r.TargetAt arguments e i p target) : r.TargetAt arguments e' i p target where
  parameter := h.parameter
  byReference := h.byReference
  argument := h.argument
  visible x hx := by
    rw [← Environment.isSome_level?, Environment.level?_congr hnames, Environment.isSome_level?]
    exact h.visible x hx

end Routine

/-! ## The end of the body -/

/-- A call gets to the end of its body: its arguments have values that fit the
parameters, calls are not nested too deeply, its scope can be filled, and its
body ends without an error. -/
structure BodyEnds (cx : Context) (fuel : Nat) (routine : Routine) (arguments : List Expr)
    (receiver : Option Ref) (s : State) (values : List Value) (opened ended : State) : Prop where
  /-- the arguments have values -/
  arguments : evaluateAll (evaluate cx fuel) arguments s = some (.ok values, opened)
  /-- they fit the parameters -/
  fitting : routine.checkArguments values = .ok ()
  /-- calls are not nested too deeply -/
  depth : opened.depth < cx.maxDepth
  /-- the body ends -/
  body : (do
      bindCall cx routine values receiver
      executeAll (execute cx fuel) routine.body)
    { opened with environment := opened.environment.startBlock, depth := opened.depth + 1 }
      = some (.ok (), ended)

section

variable {cx : Context} {fuel : Nat} {routine : Routine} {arguments : List Expr}
  {receiver : Option Ref} {values : List Value} {s opened ended : State}

/-- The arguments of a call have their values one after the other. -/
theorem evaluateAll_getElem? {evaluate : Expr → Run Value} {i : Nat} {e : Expr}
    (hrun : evaluateAll evaluate arguments s = some (.ok values, opened))
    (he : arguments[i]? = some e) :
    ∃ before t v t', evaluateAll evaluate (arguments.take i) s = some (.ok before, t) ∧
      evaluate e t = some (.ok v, t') ∧ values[i]? = some v := by
  induction arguments generalizing i s values with
  | nil => cases he
  | cons argument rest ih =>
    obtain ⟨v, t, hargument, hrun⟩ := Run.bind_eq_ok hrun
    obtain ⟨others, u, hrest, hpure⟩ := Run.bind_eq_ok hrun
    cases hpure
    cases i with
    | zero =>
      cases he
      exact ⟨[], s, v, t, rfl, hargument, rfl⟩
    | succ i =>
      obtain ⟨before, t', w, t'', hbefore, hw, hvalue⟩ := ih hrest he
      refine ⟨v :: before, t', w, t'', ?_, hw, hvalue⟩
      rw [List.take_succ_cons, evaluateAll, Run.bind_of_ok hargument, Run.bind_of_ok hbefore]
      rfl

/-- Evaluating arguments leaves the names of the variables as they are. -/
theorem fits_evaluateAll
    (hrun : evaluateAll (evaluate cx fuel) arguments s = some (.ok values, opened)) :
    opened.Fits s.heap (named (namesOf s.environment.scopes)) :=
  keeps_evaluateAll ((last_callsAt cx fuel).evaluate stable_named) arguments
    ⟨.refl s.heap, fit_named_iff.mpr rfl⟩ hrun

/-- Evaluating arguments declares no name and leaves no scope behind. -/
theorem namesOf_evaluateAll
    (hrun : evaluateAll (evaluate cx fuel) arguments s = some (.ok values, opened)) :
    namesOf opened.environment.scopes = namesOf s.environment.scopes :=
  fit_named_iff.mp (fits_evaluateAll hrun).scopes

namespace Routine

/-- Arguments that pass the check are as many as the parameters. -/
theorem length_eq_of_checkArguments (h : routine.checkArguments values = .ok ()) :
    routine.parameters.length = values.length := by
  rw [checkArguments] at h
  split at h
  · assumption
  · cases h

/-- A call starts with a variable for each of its parameters. -/
theorem map_fst_passed (h : routine.checkArguments values = .ok ()) :
    (routine.passed values).map Prod.fst = routine.parameters.map Parameter.name :=
  List.map_fst_zip (Nat.le_of_eq ((List.length_map _).trans (length_eq_of_checkArguments h)))

end Routine

namespace BodyEnds

/-- When its body has ended, the scope of a call is still on top of those of the
caller, and has the fields of the object and the parameters. -/
theorem scopes (h : BodyEnds cx fuel routine arguments receiver s values opened ended)
    (hreceiver : ∀ ref, receiver = some ref → ref.ExistsIn s.heap) :
    s.heap.Grows ended.heap ∧ ∃ top,
      top.Has (s.heap.receiverFields receiver ++ routine.parameters.map Parameter.name) ∧
      ended.environment.scopes = top :: ended.environment.leaveCall.2.scopes ∧
      namesOf ended.environment.leaveCall.2.scopes = namesOf s.environment.scopes := by
  have hopened := fits_evaluateAll h.arguments
  let inside : State :=
    { opened with environment := opened.environment.startBlock, depth := opened.depth + 1 }
  have hempty : inside.Fits s.heap (Scope.Has [] :: named (namesOf s.environment.scopes)) :=
    ⟨hopened.heap, .cons (Scope.has_nil {}) hopened.scopes⟩
  obtain ⟨⟨⟩, t, hbind, hexecute⟩ := Run.bind_eq_ok h.body
  obtain ⟨-, hbound⟩ := has_bindCall hempty hbind
  have hended := lasts_executeAll (last_callsAt cx fuel) Scope.open_has stable_has_named
    routine.body hbound hexecute
  obtain ⟨top, rest, htop, hrest, hscopes⟩ := List.forall₂_cons_left_iff.mp hended.scopes
  have hnames : namesOf rest = namesOf s.environment.scopes := fit_named_iff.mp hrest
  have hleave : ended.environment.leaveCall.2.scopes = rest := by
    rcases rest with _ | ⟨next, rest⟩
    · exact absurd hnames.symm (by simp [namesOf, Environment.scopes])
    · exact Environment.scopes_endBlock hscopes
  refine ⟨hended.heap, top, ?_, hleave ▸ hscopes, hleave ▸ hnames⟩
  have hfields : inside.heap.receiverFields receiver = s.heap.receiverFields receiver :=
    hopened.heap.receiverFields_eq hreceiver
  rwa [Heap.boundNames, hfields, Routine.map_fst_passed h.fitting] at htop

end BodyEnds

/-! ## Final values -/

/-- Variables of the innermost scope can be read, and it is there that they are
read. -/
theorem valuesOf_of_has {top : Scope} {rest : List Scope}
    (hscopes : s.environment.scopes = top :: rest) {names : List String} (hnames : top.Has names) :
    ∃ values, Run.valuesOf names s = some (.ok values, s) ∧
      List.Forall₂ (fun name v => top.vars.get? name = some v) names values := by
  induction names with
  | nil => exact ⟨[], rfl, .nil⟩
  | cons name names ih =>
    obtain ⟨hname, hnames⟩ := List.forall_mem_cons.mp hnames
    obtain ⟨values, hrest, hall⟩ := ih hnames
    obtain ⟨v, hv⟩ := Option.isSome_iff_exists.mp hname
    have hget : s.environment.get name = .ok v := by
      rw [Environment.get, Environment.lookup?_eq, hscopes, List.findSome?_cons, hv]
    refine ⟨v :: values, ?_, .cons hv hall⟩
    have hread : Run.valueOf name s = some (.ok v, s) := by rw [Run.valueOf, Run.tryReads, hget]
    rw [Run.valuesOf, Run.bind_of_ok hread, Run.bind_of_ok hrest]
    rfl

/-- The values are those that the variables of the scope hold: of the
parameters of bindings, and of the fields of an object. -/
structure Scope.Gives (top : Scope) (bindings : List Binding) (names : List String)
    (written : List Value) (fields : List (String × Value)) : Prop where
  /-- the parameters -/
  written : List.Forall₂ (fun b v => top.vars.get? b.parameter = some v) bindings written
  /-- the names of the fields -/
  names : fields.map Prod.fst = names
  /-- the fields -/
  fields : ∀ field ∈ fields, top.vars.get? field.1 = some field.2

/-- With all parameters and fields declared in the scope of the call, all final
values can be read. -/
theorem finalValues_of_has {top : Scope} {rest : List Scope} {bindings : List Binding}
    (hscopes : s.environment.scopes = top :: rest)
    (hparameters : top.Has (bindings.map Binding.parameter))
    (hfields : top.Has (s.heap.receiverFields receiver)) :
    ∃ written fields, finalValues bindings receiver s = some (.ok (written, fields), s) ∧
      top.Gives bindings (s.heap.receiverFields receiver) written fields := by
  obtain ⟨written, hwritten, hall⟩ := valuesOf_of_has hscopes hparameters
  have hall := List.forall₂_map_left_iff.mp hall
  cases receiver with
  | none =>
    refine ⟨written, [], ?_, hall, rfl, fun _ hfield => (by cases hfield)⟩
    exact Run.bind_of_ok hwritten
  | some ref =>
    obtain ⟨values, hvalues, hfinal⟩ := valuesOf_of_has hscopes hfields
    refine ⟨written, (s.heap.fields ref).names.zip values, ?_, hall, ?_, fun field hfield => ?_⟩
    · exact (Run.bind_of_ok hwritten).trans (Run.bind_of_ok hvalues)
    · exact List.map_fst_zip (Nat.le_of_eq hfinal.length_eq)
    · exact (List.forall₂_iff_zip.mp hfinal).2 hfield

end

/-! ## Writing to variables -/

/-- Values have been written to variables: nothing but their slots has changed,
and a slot that only one value was written to holds it. -/
structure Environment.Takes (written : List (Binding × Value)) (e e' : Environment) : Prop where
  /-- the levels of names -/
  levels : ∀ name, e'.level? name = e.level? name
  /-- the slots that were written to -/
  targets : ∀ {level x v}, e.level? x = some level → (∃ w ∈ written, w.1.target = .var x) →
    (∀ w ∈ written, w.1.target = .var x → w.2 = v) → e'.slotAt? level x = some v
  /-- the other slots -/
  others : ∀ {level x}, (∀ w ∈ written, w.1.target = .var x → e.level? x ≠ some level) →
    e'.slotAt? level x = e.slotAt? level x

namespace Environment.Takes

variable {e e' : Environment} {written : List (Binding × Value)} {b : Binding} {x : String}
  {value : Value}

/-- Taking nothing leaves the environment as it is. -/
theorem nil (e : Environment) : e.Takes [] e where
  levels _ := rfl
  targets _ h := by
    obtain ⟨w, hw, -⟩ := h
    cases hw
  others _ := rfl

/-- One value more, written first. -/
theorem cons (hb : b.target = .var x) (h : (e.set x value).Takes written e') :
    e.Takes ((b, value) :: written) e' where
  levels name := (h.levels name).trans (e.level?_set x value name)
  targets {level y v} hlevel hsome hall := by
    obtain ⟨hhead, hrest⟩ := List.forall_mem_cons.mp hall
    have hlevel' : (e.set x value).level? y = some level := (e.level?_set x value y).trans hlevel
    by_cases hlater : ∃ w ∈ written, w.1.target = .var y
    · exact h.targets hlevel' hlater hrest
    · -- The value in front is the only one written to the slot.
      have hbefore : e'.slotAt? level y = (e.set x value).slotAt? level y :=
        h.others fun w hw hy => absurd ⟨w, hw, hy⟩ hlater
      obtain ⟨w, hw, hy⟩ := hsome
      rcases List.mem_cons.mp hw with rfl | hw
      · cases hb.symm.trans hy
        have hv : value = v := hhead hb
        rw [hbefore, slotAt?_set_self value hlevel, hv]
      · exact absurd ⟨w, hw, hy⟩ hlater
  others {level y} hall := by
    obtain ⟨hhead, hrest⟩ := List.forall_mem_cons.mp hall
    rw [h.others fun w hw hy => e.level?_set x value y ▸ hrest w hw hy,
      slotAt?_set_of_ne value]
    rintro rfl
    exact hhead hb

end Environment.Takes

/-- Writing to variables in sight succeeds. -/
theorem writeBack_of_plain : ∀ {written : List (Binding × Value)} {s : State},
    (∀ w ∈ written, ∃ x, w.1.target = .var x ∧ s.environment.contains x = true) →
      ∃ e, writeBack written s = some (.ok (), { s with environment := e }) ∧
        s.environment.Takes written e
  | [], s, _ => ⟨s.environment, rfl, .nil _⟩
  | (b, value) :: rest, s, hwritten => by
    obtain ⟨⟨x, hb, hvisible⟩, hrest⟩ := List.forall_mem_cons.mp hwritten
    let t : State := { s with environment := s.environment.set x value }
    have hwrite : Run.write b.target value s = some (.ok (), t) := by
      have hslot : s.slot b.target = .ok (.var x) := by
        rw [hb, State.slot, State.variableSlot, if_pos hvisible]
      have hread : Run.tryReads (·.slot b.target) s = some (.ok (.var x), s) := by
        rw [Run.tryReads, hslot]
      rw [Run.write, Run.bind_of_ok hread]
      rfl
    have ht : ∀ w ∈ rest, ∃ y, w.1.target = .var y ∧ t.environment.contains y = true := by
      intro w hw
      obtain ⟨y, hy, hcontains⟩ := hrest w hw
      refine ⟨y, hy, ?_⟩
      rwa [← Environment.isSome_level?, Environment.level?_set, Environment.isSome_level?]
    obtain ⟨e, hrun, htakes⟩ := writeBack_of_plain ht
    refine ⟨e, ?_, htakes.cons hb⟩
    rw [writeBack, Run.bind_of_ok hwrite]
    exact hrun

/-! ## Calls -/

/-- The state of the caller when the scope of a call has been closed and the
fields of its object have been copied back. -/
def State.closeCall (s : State) (receiver : Option Ref) (fields : List (String × Value)) : State :=
  let popped := { s with environment := s.environment.leaveCall.2, depth := s.depth - 1 }
  receiver.elim popped (popped.putFields · fields)

/-- When a call is closed, the scopes are those that leaving the call uncovers. -/
theorem State.environment_closeCall (s : State) (receiver : Option Ref)
    (fields : List (String × Value)) :
    (s.closeCall receiver fields).environment = s.environment.leaveCall.2 := by
  cases receiver <;> rfl

section

variable {cx : Context} {fuel : Nat} {routine : Routine} {arguments : List Expr}
  {receiver : Option Ref} {values : List Value} {s opened ended : State}

namespace BodyEnds

/-- What a call does behind its body. -/
theorem invoke_eq (h : BodyEnds cx fuel routine arguments receiver s values opened ended)
    {written : List Value} {fields : List (String × Value)}
    (hfinal : finalValues (routine.visibleBindings arguments opened.environment) receiver ended
      = some (.ok (written, fields), ended)) :
    invoke cx (fuel + 1) routine arguments receiver s
      = (do
          Run.ofExcept (routine.checkResult ended.environment.leaveCall.1)
          writeBack ((routine.visibleBindings arguments opened.environment).zip written)
          return ended.environment.leaveCall.1) (ended.closeCall receiver fields) := by
  let bindings := routine.visibleBindings arguments opened.environment
  let popped : State :=
    { ended with environment := ended.environment.leaveCall.2, depth := ended.depth - 1 }
  have hbody : callBody cx (callsAt cx fuel) routine values receiver bindings
      { opened with environment := opened.environment.startBlock, depth := opened.depth + 1 }
      = some (.ok (written, fields), ended) := by
    obtain ⟨⟨⟩, t, hbind, hexecute⟩ := Run.bind_eq_ok h.body
    exact (Run.bind_of_ok hbind).trans ((Run.bind_of_ok hexecute).trans hfinal)
  have hinside : Run.inCall (callBody cx (callsAt cx fuel) routine values receiver bindings)
      { opened with depth := opened.depth + 1 }
      = some (.ok ((written, fields), ended.environment.leaveCall.1),
        { ended with environment := ended.environment.leaveCall.2 }) := by
    rw [Run.inCall, hbody]
    rfl
  have hcall : Run.deeper cx.maxDepth
      (Run.inCall (callBody cx (callsAt cx fuel) routine values receiver bindings)) opened
      = some (.ok ((written, fields), ended.environment.leaveCall.1), popped) := by
    rw [Run.deeper, if_neg (Nat.not_le_of_lt h.depth), hinside]
  have hcheck : Run.ofExcept (routine.checkArguments values) opened = some (.ok (), opened) := by
    rw [Run.ofExcept, h.fitting]
  refine (Run.bind_of_ok h.arguments).trans ((Run.bind_of_ok hcheck).trans ?_)
  refine (Run.bind_of_ok hcall).trans ?_
  cases receiver with
  | none => rfl
  | some ref => rfl

end BodyEnds

/-- The value of the argument at a place was read from the variable of a name
and a level. -/
def ReadFrom (cx : Context) (fuel : Nat) (arguments : List Expr) (s : State)
    (values : List Value) (i level : Nat) (x : String) : Prop :=
  ∃ before t v, evaluateAll (evaluate cx fuel) (arguments.take i) s = some (.ok before, t) ∧
    t.environment.level? x = some level ∧ t.environment.slotAt? level x = some v ∧
    values[i]? = some v

/-- A variable that evaluates has the value that looking it up finds. -/
theorem evaluate_var_eq_ok {x : String} {v w : Value} {t : State}
    (hrun : evaluate cx fuel (.var x) s = some (.ok v, t))
    (hw : s.environment.lookup? x = some w) : v = w := by
  cases fuel with
  | zero => cases hrun
  | succ fuel =>
    have hread : Run.reads (·.environment.lookup? x) s = some (.ok (some w), s) := by
      rw [Run.reads, hw]
    cases (Run.bind_of_ok hread).symm.trans hrun
    rfl

/-- An argument that is a variable in sight is read from the variable at the
level that its name has for the caller. -/
theorem readFrom_of_targetAt {i level : Nat} {p : Parameter} {x : String}
    (hrun : evaluateAll (evaluate cx fuel) arguments s = some (.ok values, opened))
    (htarget : routine.TargetAt arguments s.environment i p (.var x))
    (hlevel : s.environment.level? x = some level) :
    ReadFrom cx fuel arguments s values i level x := by
  obtain ⟨argument, hargument, hvar⟩ := Option.bind_eq_some_iff.mp htarget.argument
  obtain ⟨before, t, v, t', hbefore, hv, hvalue⟩ := evaluateAll_getElem? hrun hargument
  have hlevel' : t.environment.level? x = some level :=
    (Environment.level?_congr (namesOf_evaluateAll hbefore) x).trans hlevel
  obtain ⟨w, hslot, hlookup⟩ := Environment.slotAt?_of_level? hlevel'
  cases argument with
  | var y =>
    cases hvar
    cases evaluate_var_eq_ok hv hlookup
    exact ⟨before, t, v, hbefore, hlevel', hslot, hvalue⟩
  | _ => cases hvar

/-- A call has written back to its targets, which are variables, and to nothing
else: each of them holds, at the level where its argument was read, what the
parameter held in the scope of the call, and every other variable holds what it
did when that scope was closed. -/
structure WrittenBack (cx : Context) (fuel : Nat) (routine : Routine) (arguments : List Expr)
    (s : State) (values : List Value) (ended : State) (top : Scope) (s' : State) : Prop where
  /-- the levels of names -/
  levels : ∀ name, s'.environment.level? name = s.environment.level? name
  /-- the targets -/
  targets : ∀ {i p x}, routine.TargetAt arguments s.environment i p (.var x) →
    ∃ level v, s.environment.level? x = some level ∧
      ReadFrom cx fuel arguments s values i level x ∧
      top.vars.get? p.name = some v ∧ s'.environment.slotAt? level x = some v
  /-- the other variables -/
  others : ∀ {level x}, (∀ i p, routine.TargetAt arguments s.environment i p (.var x) →
      s.environment.level? x ≠ some level) →
    s'.environment.slotAt? level x = ended.environment.leaveCall.2.slotAt? level x

/-- What stands in the first list is paired with something to which it is
related. -/
theorem exists_mem_zip {α β : Type} {R : α → β → Prop} {as : List α} {bs : List β} {a : α}
    (h : List.Forall₂ R as bs) (ha : a ∈ as) : ∃ b, (a, b) ∈ as.zip bs ∧ R a b := by
  induction h with
  | nil => cases ha
  | cons hhead _ ih =>
    rcases List.mem_cons.mp ha with rfl | ha
    · exact ⟨_, List.mem_cons_self .., hhead⟩
    · obtain ⟨b, hb, hR⟩ := ih ha
      exact ⟨b, List.mem_cons_of_mem _ hb, hR⟩

/-- What is written to a target is the value of its own parameter, and nothing
else. -/
theorem values_of_targetAt {e : Environment} {bindings : List Binding} {written : List Value}
    {top : Scope} (hplain : routine.HasPlainTargets arguments e)
    (hbindings : ∀ b, b ∈ bindings ↔
      ∃ i p, routine.TargetAt arguments e i p b.target ∧ p.name = b.parameter)
    (hwritten : List.Forall₂ (fun b v => top.vars.get? b.parameter = some v) bindings written)
    {i : Nat} {p : Parameter} {x : String} (htarget : routine.TargetAt arguments e i p (.var x)) :
    ∃ v, top.vars.get? p.name = some v ∧
      (∃ w ∈ bindings.zip written, w.1.target = .var x) ∧
      ∀ w ∈ bindings.zip written, w.1.target = .var x → w.2 = v := by
  have hb : (⟨.var x, p.name⟩ : Binding) ∈ bindings := (hbindings _).mpr ⟨i, p, htarget, rfl⟩
  obtain ⟨v, hmem, hv⟩ := exists_mem_zip hwritten hb
  refine ⟨v, hv, ⟨_, hmem, rfl⟩, fun w hw hx => ?_⟩
  obtain ⟨j, q, hother, hname⟩ := (hbindings w.1).mp (List.of_mem_zip hw).1
  rw [hx] at hother
  -- The same target stands at the same place, and so at the same parameter.
  cases hplain.distinct htarget hother
  cases htarget.parameter.symm.trans hother.parameter
  have hw' : top.vars.get? p.name = some w.2 :=
    hname ▸ (List.forall₂_iff_zip.mp hwritten).2 hw
  exact Option.some.inj (hw'.symm.trans hv)

/-- If the targets are variables, and different ones, all writing succeeds, and
each target gets the value of its parameter. -/
theorem writtenBack_of_plain {bindings : List Binding} {written : List Value} {top : Scope}
    {closed : State}
    (hplain : routine.HasPlainTargets arguments s.environment)
    (hbindings : ∀ b, b ∈ bindings ↔
      ∃ i p, routine.TargetAt arguments s.environment i p b.target ∧ p.name = b.parameter)
    (harguments : evaluateAll (evaluate cx fuel) arguments s = some (.ok values, opened))
    (hnames : namesOf ended.environment.leaveCall.2.scopes = namesOf s.environment.scopes)
    (hclosed : closed.environment = ended.environment.leaveCall.2)
    (hwritten : List.Forall₂ (fun b v => top.vars.get? b.parameter = some v) bindings written) :
    ∃ s', writeBack (bindings.zip written) closed = some (.ok (), s') ∧
      WrittenBack cx fuel routine arguments s values ended top s' := by
  have hlevels : ∀ x, closed.environment.level? x = s.environment.level? x := by
    rw [hclosed]
    exact Environment.level?_congr hnames
  have hentries : ∀ w ∈ bindings.zip written, ∃ i p,
      routine.TargetAt arguments s.environment i p w.1.target ∧ p.name = w.1.parameter :=
    fun w hw => (hbindings w.1).mp (List.of_mem_zip hw).1
  have hvariables : ∀ w ∈ bindings.zip written, ∃ x, w.1.target = .var x ∧
      closed.environment.contains x = true := by
    intro w hw
    obtain ⟨i, p, htarget, -⟩ := hentries w hw
    obtain ⟨x, hx⟩ := hplain.plain htarget
    refine ⟨x, hx, ?_⟩
    rw [← Environment.isSome_level?, hlevels, Environment.isSome_level?]
    exact htarget.visible x hx
  obtain ⟨e, hrun, htakes⟩ := writeBack_of_plain hvariables
  refine ⟨_, hrun, fun name => (htakes.levels name).trans (hlevels name), ?_, ?_⟩
  · intro i p x htarget
    have hvisible : (s.environment.level? x).isSome = true := by
      rw [Environment.isSome_level?]
      exact htarget.visible x rfl
    obtain ⟨level, hlevel⟩ := Option.isSome_iff_exists.mp hvisible
    obtain ⟨v, hv, hsome, hall⟩ := values_of_targetAt hplain hbindings hwritten htarget
    refine ⟨level, v, hlevel, readFrom_of_targetAt harguments htarget hlevel, hv, ?_⟩
    exact htakes.targets ((hlevels x).trans hlevel) hsome hall
  · intro level x hother
    have hsame : e.slotAt? level x = closed.environment.slotAt? level x := by
      refine htakes.others fun w hw hx => ?_
      obtain ⟨i, p, htarget, -⟩ := hentries w hw
      rw [hlevels]
      exact hother i p (hx ▸ htarget)
    rw [← hclosed]
    exact hsame

/-- **Parameters by reference are written back exactly.** Let the body of a call
end without an error. Then all final values can be read, and they are read in
the scope of the call, which is on top of those of the caller: those of the
parameters that are written back, and those of the fields of the object. If the
result has the type that the routine declares, and the targets are variables
and different ones, the call ends with the result, each target has got the value
of its own parameter, and no other variable has changed since the scope of the
call was closed. The object that a call is on has to be there. In runs it is: it
is found in a sound state (`State.IsSound.objectAt`), and runs leave states
sound. -/
theorem references_written_back (cx : Context) {fuel : Nat} {routine : Routine}
    {arguments : List Expr} {receiver : Option Ref} {values : List Value} {s opened ended : State}
    (hreceiver : ∀ ref, receiver = some ref → ref.ExistsIn s.heap)
    (hbody : BodyEnds cx fuel routine arguments receiver s values opened ended) :
    ∃ top written fields,
      ended.environment.scopes = top :: ended.environment.leaveCall.2.scopes ∧
      namesOf ended.environment.leaveCall.2.scopes = namesOf s.environment.scopes ∧
      finalValues (routine.visibleBindings arguments opened.environment) receiver ended
        = some (.ok (written, fields), ended) ∧
      top.Gives (routine.visibleBindings arguments opened.environment)
        (s.heap.receiverFields receiver) written fields ∧
      (ended.environment.leaveCall.1.type = routine.returns →
        routine.HasPlainTargets arguments s.environment →
        ∃ s', invoke cx (fuel + 1) routine arguments receiver s
            = some (.ok ended.environment.leaveCall.1, s') ∧
          WrittenBack cx fuel routine arguments s values ended top s') := by
  obtain ⟨hgrows, top, htop, hscopes, hnames⟩ := hbody.scopes hreceiver
  have hopened := namesOf_evaluateAll hbody.arguments
  have hbindings : ∀ b, b ∈ routine.visibleBindings arguments opened.environment ↔
      ∃ i p, routine.TargetAt arguments s.environment i p b.target ∧ p.name = b.parameter := by
    intro b
    rw [Routine.mem_visibleBindings_iff]
    exact exists_congr fun i => exists_congr fun p =>
      and_congr_left' ⟨.congr hopened.symm, .congr hopened⟩
  have hfields : ended.heap.receiverFields receiver = s.heap.receiverFields receiver :=
    hgrows.receiverFields_eq hreceiver
  have hparameters : top.Has
      ((routine.visibleBindings arguments opened.environment).map Binding.parameter) := by
    intro name hname
    obtain ⟨b, hb, rfl⟩ := List.mem_map.mp hname
    obtain ⟨i, p, htarget, hp⟩ := (hbindings b).mp hb
    have hmem : p ∈ routine.parameters := List.mem_of_getElem? htarget.parameter
    exact htop _ (List.mem_append_right _ (hp ▸ List.mem_map_of_mem hmem))
  have hreceiver' : top.Has (ended.heap.receiverFields receiver) :=
    fun name hname => htop name (List.mem_append_left _ (hfields ▸ hname))
  obtain ⟨written, fields, hfinal, hgives⟩ := finalValues_of_has hscopes hparameters hreceiver'
  refine ⟨top, written, fields, hscopes, hnames, hfinal, hfields ▸ hgives, fun htype hplain => ?_⟩
  obtain ⟨s', hrun, hback⟩ := writtenBack_of_plain hplain hbindings hbody.arguments hnames
    (ended.environment_closeCall receiver fields) hgives.written
  refine ⟨s', ?_, hback⟩
  have hcheck : Run.ofExcept (routine.checkResult ended.environment.leaveCall.1)
      (ended.closeCall receiver fields) = some (.ok (), ended.closeCall receiver fields) := by
    rw [Run.ofExcept, Routine.checkResult, if_pos htype]
  rw [hbody.invoke_eq hfinal, Run.bind_of_ok hcheck, Run.bind_of_ok hrun]
  rfl

end

/-- A method with parameters by reference that are named like variables of its
caller. -/
def crosses : Routine where
  returns := .void
  name := "m"
  parameters := [
    { type := .integer, name := "y", byReference := true },
    { type := .integer, name := "kept", byReference := false },
    { type := .integer, name := "x", byReference := true }]
  body := [
    .assign (.var "x") (.var "kept"),
    .assign (.var "y") (.var "f"),
    .assign (.var "kept") (.var "f")]

/-- A program with the method. -/
def crossesNames : Program where
  classes := .ofList [("C", {
    name := "C"
    fields := [{ type := .integer, name := "f", initial := none }]
    methods := [crosses] })]

/-- An object whose field holds nought, and three variables. -/
def threeVariables : State where
  environment := { global := { vars := .ofList [
    ("x", .integer .zero), ("y", .integer .zero), ("z", .integer ⟨5, inRange_five⟩)] } }
  heap := { objects := #[{ className := "C", fields := .ofList [("f", .integer .zero)] }] }

/-- The parameters cross: the caller's `x` gets what the parameter `y` held, and
the other way round. What stands at the parameter by value is left alone. -/
theorem references_written_back_crosses :
    (∀ ref, some (⟨"C", 0⟩ : Ref) = some ref → ref.ExistsIn threeVariables.heap) ∧
    ∃ values opened ended top s',
      BodyEnds ⟨crossesNames, 1⟩ 9 crosses [.var "x", .var "z", .var "y"] (some ⟨"C", 0⟩)
        threeVariables values opened ended ∧
      invoke ⟨crossesNames, 1⟩ 10 crosses [.var "x", .var "z", .var "y"] (some ⟨"C", 0⟩)
        threeVariables = some (.ok .void, s') ∧
      WrittenBack ⟨crossesNames, 1⟩ 9 crosses [.var "x", .var "z", .var "y"] threeVariables values
        ended top s' ∧
      s'.environment.slotAt? 0 "x" = some (.integer .zero) ∧
      s'.environment.slotAt? 0 "y" = some (.integer ⟨5, inRange_five⟩) ∧
      s'.environment.slotAt? 0 "z" = some (.integer ⟨5, inRange_five⟩) := by
  have hreceiver : ∀ ref, some (⟨"C", 0⟩ : Ref) = some ref → ref.ExistsIn threeVariables.heap := by
    rintro ref ⟨⟩
    exact ⟨_, rfl, rfl⟩
  obtain ⟨values, opened, ended, hbody, hvoid⟩ : ∃ values opened ended,
      BodyEnds ⟨crossesNames, 1⟩ 9 crosses [.var "x", .var "z", .var "y"] (some ⟨"C", 0⟩)
        threeVariables values opened ended ∧ ended.environment.leaveCall.1 = .void :=
    ⟨_, _, _, ⟨rfl, rfl, by decide, rfl⟩, rfl⟩
  obtain ⟨s', hrun, hx, hy, hz⟩ : ∃ s',
      invoke ⟨crossesNames, 1⟩ 10 crosses [.var "x", .var "z", .var "y"] (some ⟨"C", 0⟩)
        threeVariables = some (.ok .void, s') ∧
      s'.environment.slotAt? 0 "x" = some (.integer .zero) ∧
      s'.environment.slotAt? 0 "y" = some (.integer ⟨5, inRange_five⟩) ∧
      s'.environment.slotAt? 0 "z" = some (.integer ⟨5, inRange_five⟩) := ⟨_, rfl, rfl, rfl, rfl⟩
  obtain ⟨top, written, fields, -, -, -, -, hback⟩ :=
    references_written_back ⟨crossesNames, 1⟩ hreceiver hbody
  have hplain : crosses.HasPlainTargets (["x", "z", "y"].map Expr.var) threeVariables.environment :=
    .of_nodup (by decide)
  obtain ⟨t, hinvoke, ht⟩ := hback (by rw [hvoid]; rfl) hplain
  rw [hvoid] at hinvoke
  cases hrun.symm.trans hinvoke
  exact ⟨hreceiver, values, opened, ended, top, s', hbody, hrun, ht, hx, hy, hz⟩

end ClassLang
