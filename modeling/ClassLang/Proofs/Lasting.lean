import ClassLang.Proofs.Lookup
import ClassLang.Proofs.Steps

/-!
# What lasts

Two things last through any run, however it ends.

* Objects. An object stays where it is, of its class and with its fields
  (`Heap.Grows`).
* What can be said of a scope and is not destroyed by assignments
  (`Scope.Stable`), of the scope that statements run in also not by
  declarations (`Scope.Open`).

A state fits a list of properties of scopes (`State.Fits`) if each of its
scopes has the property at its place. Evaluation keeps this for all lists of
stable properties, execution if the first of them is open as well. Which names
are assigned to is a parameter: what no assignment to other names destroys
lasts where a name is spared.
-/

namespace ClassLang

open Run (Keeps)

/-! ## Objects -/

/-- Every object is still where it was, of the same class and with the same
fields. -/
def Heap.Grows (h h' : Heap) : Prop :=
  ∀ location o, h.object? location = some o →
    ∃ o', h'.object? location = some o' ∧ o'.className = o.className ∧
      o'.fields.names = o.fields.names

namespace Heap.Grows

variable {h h' h'' : Heap}

theorem refl (h : Heap) : h.Grows h := fun _ o ho => ⟨o, ho, rfl, rfl⟩

theorem trans (h₁ : h.Grows h') (h₂ : h'.Grows h'') : h.Grows h'' := by
  intro location o ho
  obtain ⟨o', ho', hclass', hnames'⟩ := h₁ location o ho
  obtain ⟨o'', ho'', hclass'', hnames''⟩ := h₂ location o' ho'
  exact ⟨o'', ho'', hclass''.trans hclass', hnames''.trans hnames'⟩

/-- Writing to a field takes nothing away. -/
theorem setField (h : Heap) (ref : Ref) (name : String) (value : Value) :
    h.Grows (h.setField ref name value) := by
  intro location o ho
  rw [object?_setField, ho]
  split
  · exact ⟨_, rfl, rfl, Table.names_set ..⟩
  · exact ⟨o, rfl, rfl, rfl⟩

/-- Writing to several fields takes nothing away either. -/
theorem setFields (ref : Ref) : ∀ (entries : List (String × Value)) (h : Heap),
    h.Grows (entries.foldl (fun h (name, value) => h.setField ref name value) h)
  | [], h => refl h
  | (name, value) :: rest, h => (setField h ref name value).trans (setFields ref rest _)

/-- A new object leaves the others where they are. -/
theorem allocate (h : Heap) (object : Object) : h.Grows (h.allocate object).2 := by
  intro location o ho
  have hne : location ≠ (h.allocate object).1.location := by
    rintro rfl
    rw [object?_allocate_fresh] at ho
    cases ho
  rw [object?_allocate, if_neg hne]
  exact ⟨o, ho, rfl, rfl⟩

/-- An object keeps the fields it has. -/
theorem hasField (hg : h.Grows h') {ref : Ref} {name : String} (hname : h.hasField ref name) :
    h'.hasField ref name := by
  rw [Heap.hasField, Heap.fields] at hname ⊢
  rcases ho : h.object? ref.location with _ | o
  · rw [ho] at hname
    cases hname
  · obtain ⟨o', ho', -, hnames⟩ := hg ref.location o ho
    rw [ho, Option.elim_some, ← Table.mem_names_iff] at hname
    rwa [ho', Option.elim_some, ← Table.mem_names_iff, hnames]

end Heap.Grows

/-! ## Targets and slots -/

/-- The variable that a target names by its bare name. -/
def Target.bareName? : Target → Option String
  | var name => some name
  | member head [] => some head
  | member _ (_ :: _) => none

/-- A target that names a slot names a variable in sight by its bare name, or
a field. -/
theorem State.slot_eq_ok {s : State} {target : Target} {slot : Slot}
    (h : s.slot target = .ok slot) :
    (∃ name, target.bareName? = some name ∧ s.environment.contains name = true ∧
      slot = .var name) ∨
    (target.bareName? = none ∧ ∃ owner name, s.heap.hasField owner name = true ∧
      slot = .field owner name) := by
  have hvariable : ∀ name, s.variableSlot name = .ok slot →
      s.environment.contains name = true ∧ slot = .var name := by
    intro name hslot
    rw [variableSlot] at hslot
    split at hslot <;> cases hslot
    exact ⟨‹_›, rfl⟩
  cases target with
  | var name => exact .inl ⟨name, rfl, hvariable name h⟩
  | member head path =>
    rcases path with _ | ⟨segment, path⟩
    · exact .inl ⟨head, rfl, hvariable head h⟩
    · rw [State.slot, List.getLast?_cons] at h
      rcases howner : s.objectAt head (segment :: path).dropLast with e | owner <;>
        simp only [howner] at h
      · cases h
      · change (if s.heap.hasField owner _ then _ else _) = _ at h
        split at h <;> cases h
        exact .inr ⟨rfl, owner, _, ‹_›, rfl⟩

/-- Inversion for writing: the target named a slot, which was filled, or nothing
changed. -/
theorem Run.write_eq_some {target : Target} {value : Value} {s s' : State}
    {r : Except RuntimeError Unit} (h : Run.write target value s = some (r, s')) :
    (∃ slot, s.slot target = .ok slot ∧ r = .ok () ∧ s' = s.put slot value) ∨
      ((∃ e, r = .error e) ∧ s' = s) := by
  rcases hslot : s.slot target with e | slot
  · have hread : Run.tryReads (·.slot target) s = some (.error e, s) := by rw [Run.tryReads, hslot]
    cases (Run.bind_of_error hread).symm.trans h
    exact .inr ⟨⟨e, rfl⟩, rfl⟩
  · have hread : Run.tryReads (·.slot target) s = some (.ok slot, s) := by rw [Run.tryReads, hslot]
    cases (Run.bind_of_ok hread).symm.trans h
    exact .inl ⟨slot, rfl, rfl, rfl⟩

/-! ## Scopes -/

/-- The property of scopes survives assignments to the names allowed. -/
def Scope.Stable (allowed : String → Prop) (ψ : Scope → Prop) : Prop :=
  ∀ s name value, allowed name → ψ s → ψ (s.set name value)

/-- The property of scopes survives declarations. -/
structure Scope.Open (ψ : Scope → Prop) : Prop where
  /-- of variables -/
  declare : ∀ {s s' name value}, s.declare name value = .ok s' → ψ s → ψ s'
  /-- of routines -/
  declareMethod : ∀ {s} routine, ψ s → ψ (s.declareMethod routine)

/-- The scopes have the properties, each the one at its place. -/
abbrev Fit (Ψ : List (Scope → Prop)) (scopes : List Scope) : Prop :=
  List.Forall₂ (fun ψ s => ψ s) Ψ scopes

/-- Assignment to an allowed name keeps what is said of each scope. -/
theorem fit_setFirst {allowed : String → Prop} {Ψ : List (Scope → Prop)} {scopes : List Scope}
    {name : String} (hΨ : ∀ ψ ∈ Ψ, Scope.Stable allowed ψ) (hname : allowed name) (value : Value)
    (h : Fit Ψ scopes) : Fit Ψ (setFirst name value scopes) := by
  induction h with
  | nil => exact .nil
  | cons hψ hrest ih =>
    obtain ⟨hhead, htail⟩ := List.forall_mem_cons.mp hΨ
    rw [setFirst]
    split
    · exact .cons (hhead _ name value hname hψ) hrest
    · exact .cons hψ (ih htail)

namespace Environment

variable {e e' : Environment}

/-- The end of a block takes away the scope on top. -/
theorem scopes_endBlock {s s' : Scope} {rest : List Scope} (h : e.scopes = s :: s' :: rest) :
    e.endBlock.scopes = s' :: rest := by
  obtain ⟨_ | ⟨top, inner⟩, global, natives, pendingReturn⟩ := e
  · cases h
  · exact (List.cons.inj h).2

/-- A declaration changes the scope on top, and no other. -/
theorem scopes_declare {name : String} {value : Value} (h : e.declare name value = .ok e') :
    ∃ s s' rest, e.scopes = s :: rest ∧ s.declare name value = .ok s' ∧ e'.scopes = s' :: rest := by
  rw [declare] at h
  rcases hinner : e.inner with _ | ⟨s, rest⟩ <;> rw [hinner] at h <;> dsimp only at h
  · rcases hs : e.global.declare name value with error | s' <;> rw [hs] at h <;> cases h
    exact ⟨e.global, s', [], by rw [scopes, hinner]; rfl, hs, rfl⟩
  · rcases hs : s.declare name value with error | s' <;> rw [hs] at h <;> cases h
    exact ⟨s, s', rest ++ [e.global], by rw [scopes, hinner]; rfl, hs, rfl⟩

/-- The declaration of a method changes the scope on top, and no other. -/
theorem scopes_declareMethod (e : Environment) (routine : Routine) :
    ∃ s rest, e.scopes = s :: rest ∧
      (e.declareMethod routine).scopes = s.declareMethod routine :: rest := by
  obtain ⟨_ | ⟨s, inner⟩, global, natives, pendingReturn⟩ := e
  · exact ⟨global, [], rfl, rfl⟩
  · exact ⟨s, inner ++ [global], rfl, rfl⟩

end Environment

/-! ## States -/

/-- The objects of a heap are there, and the scopes have the properties. -/
structure State.Fits (h : Heap) (Ψ : List (Scope → Prop)) (s : State) : Prop where
  /-- the objects are there -/
  heap : h.Grows s.heap
  /-- the scopes have the properties, innermost first -/
  scopes : Fit Ψ s.environment.scopes

namespace State.Fits

variable {h : Heap} {ψ : Scope → Prop} {Ψ : List (Scope → Prop)} {s : State}

/-- The objects that are there now are there. -/
theorem now (hs : s.Fits h Ψ) : s.Fits s.heap Ψ := ⟨.refl s.heap, hs.scopes⟩

/-- A new block puts a scope on top of which what goes for empty ones is known. -/
theorem startBlock (hs : s.Fits h Ψ) (hψ : ψ {}) :
    { s with environment := s.environment.startBlock }.Fits h (ψ :: Ψ) :=
  ⟨hs.heap, .cons hψ hs.scopes⟩

/-- Closing a scope leaves those below it, of which there has to be one. -/
theorem endBlock {ψ' : Scope → Prop} (hs : s.Fits h (ψ :: ψ' :: Ψ)) :
    { s with environment := s.environment.endBlock }.Fits h (ψ' :: Ψ) := by
  refine ⟨hs.heap, ?_⟩
  have hscopes := hs.scopes
  obtain ⟨top, below, -, hbelow, heq⟩ := List.forall₂_cons_left_iff.mp hscopes
  obtain ⟨s', rest, -, -, rfl⟩ := List.forall₂_cons_left_iff.mp hbelow
  rw [Environment.scopes_endBlock heq]
  exact hbelow

end State.Fits

/-! ## Computations -/

section

variable {allowed : String → Prop} {h : Heap} {ψ : Scope → Prop} {Ψ : List (Scope → Prop)}
  {α : Type} {m : Run α}

/-- Writing to a target that names an allowed variable, or a field. -/
theorem lasts_write (hΨ : ∀ ψ ∈ Ψ, Scope.Stable allowed ψ) {target : Target}
    (htarget : ∀ name, target.bareName? = some name → allowed name) (value : Value) :
    Keeps (State.Fits h Ψ) (Run.write target value) := by
  intro s r s' hs hm
  rcases Run.write_eq_some hm with ⟨slot, hslot, -, rfl⟩ | ⟨-, rfl⟩
  · rcases State.slot_eq_ok hslot with ⟨name, hname, -, rfl⟩ | ⟨-, owner, name, -, rfl⟩
    · refine ⟨hs.heap, ?_⟩
      change Fit Ψ (s.environment.set name value).scopes
      rw [Environment.scopes_set]
      exact fit_setFirst hΨ (htarget name hname) value hs.scopes
    · exact ⟨hs.heap.trans (Heap.Grows.setField s.heap owner name value), hs.scopes⟩
  · exact hs

/-- Writing back to allowed names keeps what is said of the scopes. -/
theorem lasts_writeBack (hΨ : ∀ ψ ∈ Ψ, Scope.Stable allowed ψ) :
    ∀ {written : List (Binding × Value)},
      (∀ w ∈ written, ∀ name, w.1.target.bareName? = some name → allowed name) →
        Keeps (State.Fits h Ψ) (writeBack written)
  | [], _ => .pure _
  | (_, value) :: _, hwritten =>
    have ⟨hhead, htail⟩ := List.forall_mem_cons.mp hwritten
    .bind (lasts_write hΨ hhead value) fun _ => lasts_writeBack hΨ htail

/-- A declaration that is done changes the innermost scope only. -/
theorem State.Fits.of_declare {φ : Scope → Prop} {s s' : State} {name : String} {value : Value}
    (hs : s.Fits h (ψ :: Ψ))
    (hφ : ∀ {top top' : Scope}, top.declare name value = .ok top' → ψ top → φ top')
    (hrun : Run.declare name value s = some (.ok (), s')) : s'.Fits h (φ :: Ψ) := by
  rw [Run.declare, Run.tryModify] at hrun
  rcases hdeclare : s.environment.declare name value with e | e <;> rw [hdeclare] at hrun <;>
    cases hrun
  obtain ⟨top, top', rest, hscopes, htop, hscopes'⟩ := Environment.scopes_declare hdeclare
  have hfit := hs.scopes
  rw [hscopes] at hfit
  obtain ⟨hψ, hΨ⟩ := List.forall₂_cons.mp hfit
  refine ⟨hs.heap, ?_⟩
  change Fit (φ :: Ψ) e.scopes
  rw [hscopes']
  exact .cons (hφ htop hψ) hΨ

/-- A declaration keeps what is said of the scopes. -/
theorem lasts_declare (hopen : Scope.Open ψ) (name : String) (value : Value) :
    Keeps (State.Fits h (ψ :: Ψ)) (Run.declare name value) := by
  intro s r s' hs hrun
  rcases r with e | ⟨⟨⟩⟩
  · rw [Run.declare, Run.tryModify] at hrun
    split at hrun <;> cases hrun
    exact hs
  · exact hs.of_declare hopen.declare hrun

/-- So do several declarations. -/
theorem lasts_declareAll (hopen : Scope.Open ψ) : ∀ entries : List (String × Value),
    Keeps (State.Fits h (ψ :: Ψ)) (Run.declareAll entries)
  | [] => .pure _
  | (name, value) :: rest =>
    .bind (lasts_declare hopen name value) fun _ => lasts_declareAll hopen rest

/-- So do declarations of methods. -/
theorem lasts_declareMethods (hopen : Scope.Open ψ) (routines : List Routine) :
    Keeps (State.Fits h (ψ :: Ψ)) (Run.declareMethods routines) := by
  refine .modify fun s hs => ⟨hs.heap, ?_⟩
  refine List.foldlRecOn (motive := fun e : Environment => Fit (ψ :: Ψ) e.scopes) _ _ hs.scopes
    fun e he routine _ => ?_
  obtain ⟨top, rest, hscopes, hscopes'⟩ := e.scopes_declareMethod routine
  rw [hscopes] at he
  obtain ⟨hψ, hΨ⟩ := List.forall₂_cons.mp he
  rw [hscopes']
  exact .cons (hopen.declareMethod routine hψ) hΨ

/-- Writing the fields of an object keeps what is said of the scopes. -/
theorem lasts_putFields (ref : Ref) (fields : List (String × Value)) :
    Keeps (State.Fits h Ψ) (Run.modify (·.putFields ref fields)) :=
  .modify fun _ hs => ⟨hs.heap.trans (.setFields ref fields _), hs.scopes⟩

theorem lasts_allocate (object : Object) : Keeps (State.Fits h Ψ) (Run.allocate object) := by
  intro s r s' hs hm
  cases hm
  exact ⟨hs.heap.trans (.allocate s.heap object), hs.scopes⟩

theorem lasts_print (text : String) : Keeps (State.Fits h Ψ) (Run.print text) :=
  .print text fun _ hs => ⟨hs.heap, hs.scopes⟩

/-- There is a scope on top, of which something is said. -/
theorem State.Fits.exists_cons {s : State} (hs : s.Fits h Ψ) : ∃ ψ Ψ', Ψ = ψ :: Ψ' := by
  rcases Ψ with _ | ⟨ψ, Ψ⟩
  · have hlength := hs.scopes.length_eq
    simp [Environment.scopes] at hlength
  · exact ⟨ψ, Ψ, rfl⟩

/-- A block keeps what its body keeps, in a scope of which something more is
said as long as it is there. -/
theorem lasts_inBlock (hψ : ψ {}) (hm : Keeps (State.Fits h (ψ :: Ψ)) m) :
    Keeps (State.Fits h Ψ) (Run.inBlock m) := by
  intro s r s' hs hrun
  obtain ⟨ψ', Ψ', rfl⟩ := hs.exists_cons
  rw [Run.inBlock] at hrun
  rcases hbody : m { s with environment := s.environment.startBlock } with _ | ⟨r', t⟩ <;>
    rw [hbody] at hrun <;> cases hrun
  exact (hm (hs.startBlock hψ) hbody).endBlock

/-- A call keeps what is said of the scopes below its own. -/
theorem lasts_inCall (hψ : ψ {}) (hm : Keeps (State.Fits h (ψ :: Ψ)) m) :
    Keeps (State.Fits h Ψ) (Run.inCall m) := by
  intro s r s' hs hrun
  obtain ⟨ψ', Ψ', rfl⟩ := hs.exists_cons
  rw [Run.inCall] at hrun
  rcases hbody : m { s with environment := s.environment.startBlock } with _ | ⟨r', t⟩ <;>
    rw [hbody] at hrun <;> cases hrun
  have hend := (hm (hs.startBlock hψ) hbody).endBlock
  exact ⟨hend.heap, hend.scopes⟩

theorem lasts_deeper {limit : Nat} (hm : Keeps (State.Fits h Ψ) m) :
    Keeps (State.Fits h Ψ) (Run.deeper limit m) := by
  intro s r s' hs hrun
  rw [Run.deeper] at hrun
  split at hrun
  · cases hrun
    exact hs
  · rcases hbody : m { s with depth := s.depth + 1 } with _ | ⟨r', t⟩ <;>
      rw [hbody] at hrun <;> cases hrun
    have hend := hm (s := { s with depth := s.depth + 1 }) ⟨hs.heap, hs.scopes⟩ hbody
    exact ⟨hend.heap, hend.scopes⟩

end

/-! ## Steps -/

/-- What the functions that run a program leave as it is, as far as they assign
to no names but those allowed. -/
structure Calls.Last (allowed : String → Prop) (calls : Calls) : Prop where
  /-- evaluation -/
  evaluate : ∀ {h Ψ}, (∀ ψ ∈ Ψ, Scope.Stable allowed ψ) → ∀ e,
    Keeps (State.Fits h Ψ) (calls.evaluate e)
  /-- execution, in a scope that may take declarations -/
  execute : ∀ {h ψ Ψ}, Scope.Open ψ → (∀ φ ∈ ψ :: Ψ, Scope.Stable allowed φ) → ∀ st,
    Keeps (State.Fits h (ψ :: Ψ)) (calls.execute st)
  /-- making an object -/
  construct : ∀ {h Ψ}, (∀ ψ ∈ Ψ, Scope.Stable allowed ψ) → ∀ c,
    Keeps (State.Fits h Ψ) (calls.construct c)
  /-- calling a routine -/
  invoke : ∀ {h Ψ}, (∀ ψ ∈ Ψ, Scope.Stable allowed ψ) → ∀ routine arguments receiver,
    Keeps (State.Fits h Ψ) (calls.invoke routine arguments receiver)
  /-- going deeper -/
  deeper : ∀ {h Ψ} {α : Type} {m : Run α}, Keeps (State.Fits h Ψ) m →
    Keeps (State.Fits h Ψ) (calls.deeper m)

/-- The variable that a statement assigns to by its bare name, not counting
the statements inside of it and the routines it calls. -/
def Stmt.assigned? : Stmt → Option String
  | assign target _ => target.bareName?
  | _ => none

section

variable {allowed : String → Prop} {h : Heap} {ψ : Scope → Prop} {Ψ : List (Scope → Prop)}
  {cx : Context} {calls : Calls}

theorem Scope.open_true : Scope.Open fun _ => True := ⟨fun _ _ => trivial, fun _ _ => trivial⟩

/-- Nothing said of a scope is stable. -/
theorem Scope.stable_cons_true (hΨ : ∀ ψ ∈ Ψ, Scope.Stable allowed ψ) :
    ∀ φ ∈ (fun _ => True) :: Ψ, Scope.Stable allowed φ :=
  List.forall_mem_cons.mpr ⟨fun _ _ _ _ _ => trivial, hΨ⟩

/-- Inside of a run, everything that it calls keeps what is said of the scopes. -/
theorem Calls.Last.keep (hc : calls.Last allowed) (hΨ : ∀ ψ ∈ Ψ, Scope.Stable allowed ψ) :
    calls.Keep (State.Fits h Ψ) where
  evaluate := hc.evaluate hΨ
  construct := hc.construct hΨ
  invoke := hc.invoke hΨ

/-- A list of statements keeps what is said of the scopes, for every statement
does. -/
theorem lasts_executeAll (hc : calls.Last allowed) (hopen : Scope.Open ψ)
    (hΨ : ∀ φ ∈ ψ :: Ψ, Scope.Stable allowed φ) :
    ∀ body : List Stmt, Keeps (State.Fits h (ψ :: Ψ)) (executeAll calls.execute body)
  | [] => .pure _
  | st :: rest => by
    refine .bind (hc.execute hopen hΨ st) fun _ => .bind (.reads _) fun returning => ?_
    split
    · exact .pure _
    · exact lasts_executeAll hc hopen hΨ rest

theorem lasts_executeBlock (hc : calls.Last allowed) (hΨ : ∀ ψ ∈ Ψ, Scope.Stable allowed ψ)
    (body : List Stmt) : Keeps (State.Fits h Ψ) (executeBlock calls.execute body) :=
  lasts_inBlock (ψ := fun _ => True) trivial
    (lasts_executeAll hc Scope.open_true (Scope.stable_cons_true hΨ) body)

/-- Assignment to an allowed name keeps what is said of the scopes. -/
theorem lasts_assign (hc : calls.Last allowed) (hopen : Scope.Open ψ)
    (hΨ : ∀ φ ∈ ψ :: Ψ, Scope.Stable allowed φ) {target : Target}
    (htarget : ∀ name, target.bareName? = some name → allowed name) (value : Value) :
    Keeps (State.Fits h (ψ :: Ψ)) (assign cx calls.construct target value) := by
  cases value with
  | cls name =>
    refine .bind (keeps_constructNamed (hc.construct hΨ) name) fun value => ?_
    cases target with
    | var x =>
      refine .bind (.reads _) fun known => ?_
      split
      · exact lasts_write hΨ htarget value
      · exact lasts_declare hopen x value
    | member head path => exact lasts_write hΨ htarget value
  | _ => exact lasts_write hΨ htarget _

/-- One step of a statement. -/
theorem lasts_executeStep (hc : calls.Last allowed) (hopen : Scope.Open ψ)
    (hΨ : ∀ φ ∈ ψ :: Ψ, Scope.Stable allowed φ) {st : Stmt}
    (hst : ∀ name, st.assigned? = some name → allowed name) :
    Keeps (State.Fits h (ψ :: Ψ)) (executeStep cx calls st) := by
  cases st with
  | declare d =>
    exact .bind (keeps_initialValue (hc.evaluate hΨ) (hc.construct hΨ) d) fun value =>
      lasts_declare hopen d.name value
  | assign target e =>
    exact .bind (hc.evaluate hΨ e) fun value => lasts_assign hc hopen hΨ hst value
  | call e => exact .bind (hc.evaluate hΨ e) fun _ => .pure _
  | ret e => exact .bind (hc.evaluate hΨ e) fun _ => .modify fun _ hs => ⟨hs.heap, hs.scopes⟩
  | ifThen condition body =>
    refine .bind (hc.evaluate hΨ condition) fun value => ?_
    split
    · exact lasts_executeBlock hc hΨ body
    · exact .pure _
  | ifElse condition body otherwise =>
    refine .bind (hc.evaluate hΨ condition) fun value => ?_
    split
    · exact lasts_executeBlock hc hΨ body
    · exact lasts_executeBlock hc hΨ otherwise
  | loop condition body =>
    refine .bind (hc.evaluate hΨ condition) fun value => ?_
    split
    · refine .bind (lasts_executeBlock hc hΨ body) fun _ => .bind (.reads _) fun returning => ?_
      split
      · exact .pure _
      · exact hc.execute hopen hΨ _
    · exact .pure _
  | block body => exact lasts_executeBlock hc hΨ body

/-- Setting up the fields of a new object keeps what is said of the scopes. -/
theorem lasts_memberValues (hc : calls.Last allowed) (hopen : Scope.Open ψ)
    (hΨ : ∀ φ ∈ ψ :: Ψ, Scope.Stable allowed φ) :
    ∀ (ds : List Declaration) (fields : Table Value), Keeps (State.Fits h (ψ :: Ψ))
      (memberValues (initialValue cx calls.evaluate calls.construct) fields ds)
  | [], _ => .pure _
  | d :: rest, _ =>
    .bind (keeps_initialValue (hc.evaluate hΨ) (hc.construct hΨ) d) fun _ =>
      .bind (lasts_declare hopen _ _) fun _ => lasts_memberValues hc hopen hΨ rest _

/-- One step of making an object. -/
theorem lasts_constructStep (hc : calls.Last allowed) (hΨ : ∀ ψ ∈ Ψ, Scope.Stable allowed ψ)
    (c : ClassDef) : Keeps (State.Fits h Ψ) (constructStep cx calls c) :=
  .bind (hc.deeper (lasts_inBlock (ψ := fun _ => True) trivial
    (lasts_memberValues hc Scope.open_true (Scope.stable_cons_true hΨ) c.fields ∅))) fun _ =>
      lasts_allocate _

/-- Filling the scope of a call keeps what is said of the scopes. -/
theorem lasts_bindCall (hopen : Scope.Open ψ) (routine : Routine) (values : List Value)
    (receiver : Option Ref) :
    Keeps (State.Fits h (ψ :: Ψ)) (bindCall cx routine values receiver) := by
  unfold bindCall
  cases receiver with
  | none => exact .bind (.pure _) fun _ => lasts_declareAll hopen _
  | some ref =>
    exact .bind (.reads _) fun _ => .bind (lasts_declareAll hopen _) fun _ =>
      .bind (lasts_declareMethods hopen _) fun _ => lasts_declareAll hopen _

/-- The body of a call keeps what is said of the scopes. -/
theorem lasts_callBody (hc : calls.Last allowed) (hopen : Scope.Open ψ)
    (hΨ : ∀ φ ∈ ψ :: Ψ, Scope.Stable allowed φ) (routine : Routine) (values : List Value)
    (receiver : Option Ref) (bindings : List Binding) :
    Keeps (State.Fits h (ψ :: Ψ)) (callBody cx calls routine values receiver bindings) :=
  .bind (lasts_bindCall hopen routine values receiver) fun _ =>
    .bind (lasts_executeAll hc hopen hΨ routine.body) fun _ => keeps_finalValues bindings receiver

/-- One step of a call. -/
theorem lasts_invokeStep (hc : calls.Last allowed) (hΨ : ∀ ψ ∈ Ψ, Scope.Stable allowed ψ)
    {routine : Routine} {arguments : List Expr}
    (hallowed : ∀ b ∈ routine.bindings arguments, ∀ name,
      b.target.bareName? = some name → allowed name) (receiver : Option Ref) :
    Keeps (State.Fits h Ψ) (invokeStep cx calls routine arguments receiver) := by
  refine .bind (keeps_evaluateAll (hc.evaluate hΨ) arguments) fun values => ?_
  refine .bind (.ofExcept _) fun _ => ?_
  -- The bindings depend on the state, but they are always some of those allowed.
  refine .reads_bind fun s _ => ?_
  have hbindings : ∀ b ∈ (routine.bindings arguments).filter (·.isVisible s.environment),
      b ∈ routine.bindings arguments := fun b hb => List.mem_of_mem_filter hb
  generalize (routine.bindings arguments).filter (·.isVisible s.environment) = bindings at hbindings ⊢
  refine .bind (hc.deeper (lasts_inCall (ψ := fun _ => True) trivial (lasts_callBody hc
    Scope.open_true (Scope.stable_cons_true hΨ) routine values receiver bindings))) ?_
  rintro ⟨⟨written, fields⟩, returned⟩
  have hback : Keeps (State.Fits h Ψ) (do
      Run.ofExcept (routine.checkResult returned)
      writeBack (bindings.zip written)
      return returned) :=
    .bind (.ofExcept _) fun _ => .bind
      (lasts_writeBack hΨ fun w hw => hallowed w.1 (hbindings w.1 (List.of_mem_zip hw).1))
      fun _ => .pure _
  cases receiver with
  | none => exact hback
  | some ref => exact .bind (lasts_putFields ref fields) fun _ => hback

end

/-! ## Runs -/

/-- Whatever names are assigned to, what no assignment destroys lasts. -/
theorem last_callsAt (cx : Context) : ∀ fuel : Nat, (callsAt cx fuel).Last fun _ => True
  | 0 =>
    { evaluate := fun _ _ => .outOfFuel
      execute := fun _ _ _ => .outOfFuel
      construct := fun _ _ => .outOfFuel
      invoke := fun _ _ _ _ => .outOfFuel
      deeper := lasts_deeper }
  | fuel + 1 =>
    have ih := last_callsAt cx fuel
    { evaluate := fun hΨ e => keeps_evaluateStep lasts_print (ih.keep hΨ) e
      execute := fun hopen hΨ _ => lasts_executeStep ih hopen hΨ fun _ _ => trivial
      construct := fun hΨ c => lasts_constructStep ih hΨ c
      invoke := fun hΨ _ _ receiver =>
        lasts_invokeStep ih hΨ (fun _ _ _ _ => trivial) receiver
      deeper := lasts_deeper }

end ClassLang
