import ClassLang.Proofs.Sparing

/-!
# Fields that are copied back

A method works on copies of the fields of its object. When it ends they are
copied back, all of them, also those it has not changed. So what was written to
a field in the meantime through another way to the object is undone.

The module says so for a field whose bare name is not assigned to while the
method runs. While the name is spared, the scope of the method holds for it what
the field held when the scope was opened, and that is what is copied back.
-/

namespace ClassLang

/-! ## The scope of a method -/

/-- The variable of the name holds the value. -/
def Scope.Holds (name : String) (value : Value) (s : Scope) : Prop :=
  s.vars.get? name = some value

namespace Scope

variable {name : String} {value : Value}

/-- Writing to other names leaves the variable as it is. -/
theorem stable_holds : Stable (· ≠ name) (Holds name value) := by
  intro s other new hne hs
  rw [Holds, set, Table.get?_set, if_neg hne]
  exact hs

/-- What a variable holds is not declared away. -/
theorem open_holds : Open (Holds name value) where
  declare := by
    intro s s' other new hdeclare hs
    rw [Scope.declare] at hdeclare
    split at hdeclare <;> cases hdeclare
    have hne : other ≠ name := by
      rintro rfl
      rename_i htaken
      rw [Table.contains, hs] at htaken
      exact htaken rfl
    rw [Holds, Table.get?_insert, if_neg hne]
    exact hs
  declareMethod _ hs := hs

/-- A variable that has just been declared holds its value. -/
theorem holds_of_declare {s s' : Scope} (h : s.declare name value = .ok s') :
    s'.Holds name value := by
  rw [Scope.declare] at h
  split at h <;> cases h
  rw [Holds, Table.get?_insert, if_pos rfl]

end Scope

/-- Every state fits what says nothing of its scopes. -/
theorem State.fits_self (s : State) :
    s.Fits s.heap (s.environment.scopes.map fun _ _ => True) :=
  ⟨.refl s.heap, List.forall₂_map_left_iff.mpr (List.forall₂_same.mpr fun _ _ => trivial)⟩

/-- Saying nothing of the scopes is stable under every assignment. -/
theorem State.stable_self {allowed : String → Prop} (s : State) :
    ∀ φ ∈ s.environment.scopes.map fun _ _ => True, Scope.Stable allowed φ := by
  intro φ hφ
  obtain ⟨_, -, rfl⟩ := List.mem_map.mp hφ
  exact fun _ _ _ _ _ => trivial

/-- What the scope on top holds is what looking up finds. -/
theorem State.Fits.lookup? {h : Heap} {Ψ : List (Scope → Prop)} {s : State} {name : String}
    {value : Value} (hs : s.Fits h (Scope.Holds name value :: Ψ)) :
    s.environment.lookup? name = some value := by
  obtain ⟨top, rest, htop, -, hscopes⟩ := List.forall₂_cons_left_iff.mp hs.scopes
  rw [Environment.lookup?_eq, hscopes, List.findSome?_cons, htop]

section

variable {h : Heap} {ψ : Scope → Prop} {Ψ : List (Scope → Prop)} {name : String} {value : Value}
  {s s' : State}

/-- After a declaration the scope on top holds the value. -/
theorem holds_declare (hs : s.Fits h (ψ :: Ψ))
    (hrun : Run.declare name value s = some (.ok (), s')) :
    s'.Fits h (Scope.Holds name value :: Ψ) :=
  hs.of_declare (fun hdeclare _ => Scope.holds_of_declare hdeclare) hrun

/-- After several declarations it holds the value of each. -/
theorem holds_declareAll {entries : List (String × Value)} (hmem : (name, value) ∈ entries)
    (hs : s.Fits h ((fun _ => True) :: Ψ)) (hrun : Run.declareAll entries s = some (.ok (), s')) :
    s'.Fits h (Scope.Holds name value :: Ψ) := by
  induction entries generalizing s with
  | nil => cases hmem
  | cons entry rest ih =>
    obtain ⟨other, new⟩ := entry
    obtain ⟨⟨⟩, t, hdeclare, hrest⟩ := Run.bind_eq_ok hrun
    rcases List.mem_cons.mp hmem with heq | hmem
    · cases heq
      exact lasts_declareAll Scope.open_holds rest (holds_declare hs hdeclare) hrest
    · exact ih hmem (lasts_declare Scope.open_true other new hs hdeclare) hrest

/-- When the scope of a method has been filled, the variable of a field holds
what the field does. -/
theorem holds_bindCall {cx : Context} {method : Routine} {values : List Value} {ref : Ref}
    (hfield : s.heap.field? ref name = some value) (hs : s.Fits h ((fun _ => True) :: Ψ))
    (hrun : bindCall cx method values (some ref) s = some (.ok (), s')) :
    s'.Fits h (Scope.Holds name value :: Ψ) := by
  rw [bindCall] at hrun
  obtain ⟨fields, t, hread, hrun⟩ := Run.bind_eq_ok hrun
  cases hread
  obtain ⟨⟨⟩, t, hfields, hrun⟩ := Run.bind_eq_ok hrun
  obtain ⟨⟨⟩, u, hmethods, hparameters⟩ := Run.bind_eq_ok hrun
  have ht := holds_declareAll ((Table.mem_entries_iff _).mpr hfield) hs hfields
  have hu := lasts_declareMethods Scope.open_holds _ ht hmethods
  exact lasts_declareAll Scope.open_holds _ hu hparameters

end

/-! ## What is copied back -/

/-- What is known of a variable is what is noted down for it. -/
theorem mem_zip_of_lookup? {e : Environment} {name : String} {value : Value}
    {names : List String} {values : List Value}
    (hall : List.Forall₂ (fun name value => e.lookup? name = some value) names values)
    (hname : name ∈ names) (hvalue : e.lookup? name = some value) :
    (name, value) ∈ names.zip values := by
  induction hall with
  | nil => cases hname
  | cons hhead _ ih =>
    rcases List.mem_cons.mp hname with rfl | hname
    · cases hhead.symm.trans hvalue
      exact List.mem_cons_self ..
    · exact List.mem_cons_of_mem _ (ih hname)

namespace Heap

variable {h : Heap} {ref : Ref} {name : String} {value : Value}

/-- Writing to one object changes the field there, and no other object. -/
theorem fields_setField (h : Heap) (owner ref : Ref) (name : String) (value : Value) :
    (h.setField owner name value).fields ref
      = if owner.location = ref.location then (h.fields ref).set name value else h.fields ref := by
  rw [fields, fields, object?_setField]
  split
  · rcases h.object? ref.location with _ | o <;> rfl
  · rfl

theorem hasField_eq (h : Heap) (ref : Ref) (name : String) :
    h.hasField ref name = (h.field? ref name).isSome := rfl

/-- Writing to a field is seen under its name in its object, and nowhere else. -/
theorem field?_setField (h : Heap) (owner ref : Ref) (name field : String) (value : Value) :
    (h.setField owner name value).field? ref field
      = if owner.location = ref.location ∧ name = field then (h.field? ref field).map fun _ => value
        else h.field? ref field := by
  rw [field?, field?, fields_setField]
  by_cases howner : owner.location = ref.location
  · simp only [howner, true_and, if_true, Table.get?_set]
  · simp only [howner, false_and, if_false]

/-- Fields that are not among those set stay as they are. -/
theorem field?_setFields_of_not_mem {entries : List (String × Value)} :
    ∀ {h : Heap}, name ∉ entries.map Prod.fst →
      (entries.foldl (fun h (name, value) => h.setField ref name value) h).field? ref name
        = h.field? ref name := by
  induction entries with
  | nil => exact fun _ => rfl
  | cons entry rest ih =>
    intro h hname
    rw [List.map_cons, List.mem_cons, not_or] at hname
    obtain ⟨hhead, hrest⟩ := hname
    rw [List.foldl_cons, ih hrest, field?_setField, if_neg fun hand => hhead hand.2.symm]

/-- A field that is among those set holds what it was set to. -/
theorem field?_setFields {entries : List (String × Value)} :
    ∀ {h : Heap}, (entries.map Prod.fst).Nodup → (name, value) ∈ entries →
      h.hasField ref name = true →
      (entries.foldl (fun h (name, value) => h.setField ref name value) h).field? ref name
        = some value := by
  induction entries with
  | nil => exact fun _ hmem => by cases hmem
  | cons entry rest ih =>
    intro h hnodup hmem hfield
    obtain ⟨hhead, hrest⟩ := List.nodup_cons.mp hnodup
    rw [List.foldl_cons]
    rcases List.mem_cons.mp hmem with rfl | hmem
    · rw [field?_setFields_of_not_mem hhead, field?_setField, if_pos ⟨rfl, rfl⟩]
      obtain ⟨old, hold⟩ := Option.isSome_iff_exists.mp hfield
      change (Option.map (fun _ => value) (h.field? ref name)) = _
      rw [field?, hold]
      rfl
    · exact ih hrest hmem (Heap.Grows.setField h ref entry.1 entry.2 |>.hasField hfield)

end Heap

/-! ## What is written after that -/

/-- Is a slot the field of an object? -/
def Slot.isField (ref : Ref) (name : String) : Slot → Bool
  | .var _ => false
  | .field owner other => owner.location == ref.location && other == name

/-- The value that write-backs put into a field last, if any does. -/
def lastWritten (ref : Ref) (name : String) : List (Binding × Value) → State → Option Value
  | [], _ => none
  | (b, value) :: rest, s =>
    match s.slot b.target with
    | .error _ => none
    | .ok slot => (lastWritten ref name rest (s.put slot value)).or
        (if slot.isField ref name then some value else none)

/-- What a field holds after writing to a slot is the value if the slot is this
field. -/
theorem State.field?_put {s : State} {ref : Ref} {name : String} (slot : Slot) (value : Value)
    (hfield : s.heap.hasField ref name = true) :
    (s.put slot value).heap.field? ref name
      = (if slot.isField ref name then some value else none).or (s.heap.field? ref name) := by
  cases slot with
  | var other => rfl
  | field owner other =>
    rw [State.put, Heap.field?_setField, Slot.isField]
    simp only [Bool.and_eq_true, beq_iff_eq]
    split
    · obtain ⟨old, hold⟩ := Option.isSome_iff_exists.mp hfield
      rw [Heap.field?, hold]
      rfl
    · rfl

/-- Writing to a slot removes no object and no field. -/
theorem Heap.Grows.put (s : State) (slot : Slot) (value : Value) :
    s.heap.Grows (s.put slot value).heap := by
  cases slot with
  | var name => exact .refl s.heap
  | field owner name => exact .setField s.heap owner name value

/-- After write-backs a field holds what they put there last, or what it held
before. -/
theorem field?_writeBack {ref : Ref} {name : String} {written : List (Binding × Value)}
    {s s' : State} (hfield : s.heap.hasField ref name = true)
    (hrun : writeBack written s = some (.ok (), s')) :
    s'.heap.field? ref name = (lastWritten ref name written s).or (s.heap.field? ref name) := by
  induction written generalizing s with
  | nil =>
    cases hrun
    rfl
  | cons w rest ih =>
    obtain ⟨b, value⟩ := w
    obtain ⟨⟨⟩, t, hwrite, hrest⟩ := Run.bind_eq_ok hrun
    rcases Run.write_eq_some hwrite with ⟨slot, hslot, -, rfl⟩ | ⟨⟨e, he⟩, -⟩
    · have hgrows := Heap.Grows.put s slot value
      rw [ih (hgrows.hasField hfield) hrest, State.field?_put slot value hfield, lastWritten, hslot,
        Option.or_assoc]
    · cases he

/-! ## Calls of methods -/

/-- When the body of a method has ended, and spared a name, the field of that
name is copied back as it was when the scope of the method was opened. -/
theorem field?_of_callBody {name : String} {cx : Context} {fuel : Nat} {method : Routine}
    {values written : List Value} {fields : List (String × Value)} {bindings : List Binding}
    {ref : Ref} {old : Value} {s t : State} (hfield : s.heap.field? ref name = some old)
    (hrun : callBody cx (bodySparingAt name cx fuel) method values (some ref) bindings
      { s with environment := s.environment.startBlock } = some (.ok (written, fields), t)) :
    written.length = bindings.length ∧ s.heap.Grows t.heap ∧
      (t.putFields ref fields).heap.field? ref name = some old := by
  obtain ⟨⟨⟩, t₁, hbind, hrun⟩ := Run.bind_eq_ok hrun
  obtain ⟨⟨⟩, t₂, hbody, hfinal⟩ := Run.bind_eq_ok hrun
  have hopened := s.fits_self.startBlock (ψ := fun _ => True) trivial
  have hbound := holds_bindCall
    (s := { s with environment := s.environment.startBlock }) hfield hopened hbind
  have hholds : Scope.Stable (· ≠ name) (Scope.Holds name old) := Scope.stable_holds
  have hstable := List.forall_mem_cons.mpr ⟨hholds, s.stable_self⟩
  have hended := lasts_executeAll (last_sparingAt name cx fuel) Scope.open_holds hstable method.body
    hbound hbody
  obtain ⟨rfl, hwritten, finals, rfl, hall⟩ := finalValues_eq_ok hfinal
  have hhas : t.heap.hasField ref name = true :=
    hended.heap.hasField (by rw [Heap.hasField_eq, hfield]; rfl)
  refine ⟨hwritten.length_eq.symm, hended.heap, Heap.field?_setFields ?_ ?_ hhas⟩
  · rw [List.map_fst_zip (Nat.le_of_eq hall.length_eq)]
    exact Table.nodup_names _
  · exact mem_zip_of_lookup? hall ((Table.mem_names_iff _).mpr hhas) hended.lookup?

/-- **Copying back undoes what aliases wrote.** Let a call of a method on an
object end with a value, and let neither the body of the method nor anything it
calls assign to the bare name of one of the fields. When the fields have been
copied back, that field holds what it held when the scope of the method was
opened, whatever was written to it in the meantime by a path. Behind the call
it holds what the write-backs of the call itself, which come after the copying,
put there last, or else what it held when the scope was opened. -/
theorem copying_back_undoes (cx : Context) (name : String) (method : Routine)
    (arguments : List Expr) (ref : Ref) {fuel : Nat} {s s' : State} {v : Value}
    (hfield : s.heap.hasField ref name = true)
    (hrun : invokeBodySparing name cx fuel method arguments (some ref) s = some (.ok v, s')) :
    invoke cx fuel method arguments (some ref) s = some (.ok v, s') ∧
    ∃ values opened closed written,
      evaluateAll (evaluate cx (fuel - 1)) arguments s = some (.ok values, opened) ∧
      closed.heap.field? ref name = opened.heap.field? ref name ∧
      written.map Prod.fst
        = (method.bindings arguments).filter (·.isVisible opened.environment) ∧
      writeBack written closed = some (.ok (), s') ∧
      s'.heap.field? ref name
        = (lastWritten ref name written closed).or (opened.heap.field? ref name) := by
  refine ⟨refines_invokeBodySparing name cx fuel method arguments _ s _ hrun, ?_⟩
  rcases fuel with _ | fuel
  · cases hrun
  obtain ⟨values, opened, harguments, hrun⟩ := Run.bind_eq_ok hrun
  obtain ⟨⟨⟩, t, hcheck, hrun⟩ := Run.bind_eq_ok hrun
  obtain ⟨-, rfl⟩ := Prod.mk.inj (Option.some.inj hcheck)
  obtain ⟨bindings, t, hbindings, hrun⟩ := Run.bind_eq_ok hrun
  cases hbindings
  obtain ⟨⟨⟨written, fields⟩, returned⟩, t, hcall, hrun⟩ := Run.bind_eq_ok hrun
  obtain ⟨⟨⟩, u, hput, hrun⟩ := Run.bind_eq_ok hrun
  cases hput
  obtain ⟨⟨⟩, u, hresult, hrun⟩ := Run.bind_eq_ok hrun
  obtain ⟨hresult, rfl⟩ := Prod.mk.inj (Option.some.inj hresult)
  obtain ⟨⟨⟩, u, hwritten, hpure⟩ := Run.bind_eq_ok hrun
  cases hpure
  obtain ⟨inside, hdeeper, rfl⟩ := Run.deeper_eq_ok hcall
  obtain ⟨inside, hbody, rfl⟩ := Run.inCall_eq_ok hdeeper
  have hgrows : s.heap.Grows opened.heap :=
    (keeps_evaluateAll ((last_callsAt cx fuel).evaluate s.stable_self) arguments s.fits_self
      harguments).heap
  obtain ⟨old, hold⟩ := Option.isSome_iff_exists.mp (hgrows.hasField hfield)
  have hold : opened.heap.field? ref name = some old := hold
  obtain ⟨hlength, hgrows', hclosed⟩ := field?_of_callBody
    (s := { opened with depth := opened.depth + 1 }) hold hbody
  let closed : State := State.putFields { inside with
    environment := inside.environment.leaveCall.2, depth := inside.depth - 1 } ref fields
  have hclosed : closed.heap.field? ref name = some old := hclosed
  have hhas : closed.heap.hasField ref name = true := Option.isSome_iff_exists.mpr ⟨old, hclosed⟩
  refine ⟨values, opened, closed, _, harguments, hclosed.trans hold.symm, ?_, hwritten, ?_⟩
  · exact List.map_fst_zip (Nat.le_of_eq hlength.symm)
  · rw [field?_writeBack hhas hwritten, hclosed, hold]

theorem inRange_five : InRange 5 := by decide

/-- A method that writes to a field of its argument by a path. -/
def setsOther : Routine where
  returns := .void
  name := "m"
  parameters := [{ type := .cls "C", name := "other", byReference := false }]
  body := [.assign (.member "other" ["f"]) (.integer ⟨5, inRange_five⟩)]

/-- A program that calls the method of an object with the object itself. -/
def writesByAlias : Program where
  functions := .ofList [
    ("main", { returns := .integer, name := "main", parameters := [], body := [
      .declare { type := .cls "C", name := "r", initial := some (.var "C") },
      .call (.call (.member "r" ["m"]) [.var "r"]),
      .ret (.member "r" ["f"])] })]
  classes := .ofList [("C", {
    name := "C"
    fields := [{ type := .integer, name := "f", initial := none }]
    methods := [setsOther] })]

/-- An object whose field holds nought, and a variable that holds the object. -/
def oneObject : State where
  environment := { global := { vars := .ofList [("r", .object ⟨"C", 0⟩)] } }
  heap := { objects := #[{ className := "C", fields := .ofList [("f", .integer .zero)] }] }

/-- The two runs of a method that writes by another name of its receiver. -/
theorem copying_back_undoes_writesByAlias :
    ∃ s', oneObject.heap.hasField ⟨"C", 0⟩ "f" = true ∧
      invokeBodySparing "f" ⟨writesByAlias, 2⟩ 9 setsOther [.var "r"] (some ⟨"C", 0⟩) oneObject
        = some (.ok .void, s') ∧
      invoke ⟨writesByAlias, 2⟩ 9 setsOther [.var "r"] (some ⟨"C", 0⟩) oneObject
        = some (.ok .void, s') ∧
      s'.heap.field? ⟨"C", 0⟩ "f" = some (.integer .zero) := by
  obtain ⟨s', hrun⟩ : ∃ s', invokeBodySparing "f" ⟨writesByAlias, 2⟩ 9 setsOther [.var "r"]
      (some ⟨"C", 0⟩) oneObject = some (.ok .void, s') := ⟨_, rfl⟩
  have hfield : oneObject.heap.hasField ⟨"C", 0⟩ "f" = true := rfl
  obtain ⟨hinvoke, values, opened, closed, written, harguments, -, hbindings, -, hlast⟩ :=
    copying_back_undoes ⟨writesByAlias, 2⟩ "f" setsOther [.var "r"] ⟨"C", 0⟩ hfield hrun
  have hopened : evaluateAll (evaluate ⟨writesByAlias, 2⟩ 8) [.var "r"] oneObject
      = some (.ok [.object ⟨"C", 0⟩], oneObject) := rfl
  cases hopened.symm.trans harguments
  cases List.map_eq_nil_iff.mp hbindings
  exact ⟨s', hfield, hrun, hinvoke, hlast⟩

/-- A write by an alias does not survive the call. The body of the method does
nothing but write five to the field, by a path, and does not assign to its bare
name. When it has ended the field holds five; behind the call it holds nought
again, and so it does when the whole program is run. -/
theorem alias_write_is_undone :
    (∃ inside, executeAll (executeSparing "f" ⟨writesByAlias, 2⟩ 8) setsOther.body
        { oneObject with environment := { oneObject.environment with
            inner := [{ vars := .ofList [("f", .integer .zero), ("other", .object ⟨"C", 0⟩)] }] } }
        = some (.ok (), inside) ∧
      inside.heap.field? ⟨"C", 0⟩ "f" = some (.integer ⟨5, by decide⟩)) ∧
    (∃ s', invokeBodySparing "f" ⟨writesByAlias, 2⟩ 9 setsOther [.var "r"] (some ⟨"C", 0⟩) oneObject
        = some (.ok .void, s') ∧
      s'.heap.field? ⟨"C", 0⟩ "f" = some (.integer .zero)) ∧
    ((runMain ⟨writesByAlias, 200⟩ 20 (.ready writesByAlias [])).bind (·.1.toOption)).map Value.text
      = some "0" :=
  ⟨⟨_, rfl, rfl⟩, ⟨_, rfl, rfl⟩, by decide +kernel⟩

end ClassLang
