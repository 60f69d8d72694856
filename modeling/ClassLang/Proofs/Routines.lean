import ClassLang.Program.Parts
import ClassLang.Proofs.Shape
import ClassLang.Session

/-!
# The routines in sight

A run finds routines in the scopes and in the classes of objects. The scopes have
them from the program: its functions lie in the global scope, and the scope of
a call gets the methods of a class (`Environment.HasRoutinesOf`). What opens and
closes scopes, declares and assigns keeps it so. Hence whatever holds of all
routines that a program defines (`Program.Defines`) holds of each one that is
called.
-/

namespace ClassLang

/-! ## Tables -/

namespace Table

variable {α : Type} {t : Table α} {name : String} {value other : α}

/-- What a table has under a name is one of its values. -/
theorem mem_values_of_get? (h : t.get? name = some value) : value ∈ t.values :=
  List.mem_map_of_mem (f := Prod.snd) (t.mem_entries_iff.mpr h)

/-- Inserting adds no value but the new one. -/
theorem mem_values_insert (h : other ∈ (t.insert name value).values) :
    other = value ∨ other ∈ t.values := by
  obtain ⟨entry, hentry, rfl⟩ := List.mem_map.mp h
  rcases mem_insertEntry hentry with rfl | hentry
  · exact .inl rfl
  · exact .inr (List.mem_map_of_mem hentry)

/-- A table filled from a list has the values of the list only. -/
theorem mem_values_ofList {entries : List (String × α)} (h : value ∈ (ofList entries).values) :
    value ∈ entries.map Prod.snd := by
  obtain ⟨entry, hentry, rfl⟩ := List.mem_map.mp h
  exact List.mem_map_of_mem (mem_entries_ofList hentry)

end Table

/-! ## Programs -/

/-- The table of methods has the methods of the class only. -/
theorem ClassDef.mem_methods_of_values {c : ClassDef} {r : Routine}
    (h : r ∈ c.methodTable.values) : r ∈ c.methods := by
  have hmem := Table.mem_values_ofList h
  rw [List.map_map] at hmem
  obtain ⟨m, hm, rfl⟩ := List.mem_map.mp hmem
  exact hm

namespace Context

variable {cx : Context} {ref : Ref} {name : String} {r : Routine}

/-- The methods of an object are routines of the program. -/
theorem defines_of_mem_methodsOf (h : r ∈ cx.methodsOf ref) : cx.program.Defines r := by
  rw [methodsOf] at h
  rcases hclass : cx.classOf? ref with _ | c <;> rw [hclass] at h
  · cases h
  · exact .inr ⟨c, Table.mem_values_of_get? hclass, ClassDef.mem_methods_of_values h⟩

/-- A method found by its name is a routine of the program. -/
theorem defines_of_methodOf? (h : cx.methodOf? ref name = some r) : cx.program.Defines r := by
  obtain ⟨c, hclass, hmethod⟩ := Option.bind_eq_some_iff.mp h
  exact .inr ⟨c, Table.mem_values_of_get? hclass,
    ClassDef.mem_methods_of_values (Table.mem_values_of_get? hmethod)⟩

end Context

/-! ## Environments -/

/-- Declaring a routine of the program leaves a scope with such routines only. -/
theorem Scope.defines_declareMethod {p : Program} {s : Scope} {r : Routine}
    (hs : ∀ r' ∈ s.methods.values, p.Defines r') (hr : p.Defines r) :
    ∀ r' ∈ (s.declareMethod r).methods.values, p.Defines r' := by
  intro r' hr'
  rcases Table.mem_values_insert hr' with rfl | hr'
  · exact hr
  · exact hs r' hr'

/-- The scopes have no routines but those of a program. -/
def Environment.HasRoutinesOf (p : Program) (e : Environment) : Prop :=
  ∀ shape ∈ e.shapes, ∀ r ∈ shape.2.values, p.Defines r

namespace Environment.HasRoutinesOf

variable {p : Program} {e e' : Environment} {name : String} {value : Value} {r : Routine}

/-- A routine found by its name is one of the program. -/
theorem method? (h : e.HasRoutinesOf p) (hr : e.method? name = some r) : p.Defines r := by
  rw [Environment.method?] at hr
  rw [HasRoutinesOf, shapes, scopes] at h
  rcases Option.or_eq_some_iff.mp hr with hinner | ⟨-, hglobal⟩
  · obtain ⟨s, hs, hmethod⟩ := List.exists_of_findSome?_eq_some hinner
    exact h _ (List.mem_map_of_mem (List.mem_append_left _ hs)) r (Table.mem_values_of_get? hmethod)
  · exact h _ (List.mem_map_of_mem (List.mem_append_right _ List.mem_cons_self)) r
      (Table.mem_values_of_get? hglobal)

/-- Declaring a variable brings in no routines. -/
theorem declare (h : e.HasRoutinesOf p) (hdeclare : e.declare name value = .ok e') :
    e'.HasRoutinesOf p := by
  obtain ⟨-, -, hbefore, hafter⟩ := declare_eq_ok hdeclare
  rw [HasRoutinesOf, hbefore] at h
  rw [HasRoutinesOf, hafter]
  obtain ⟨hcurrent, hrest⟩ := List.forall_mem_cons.mp h
  exact List.forall_mem_cons.mpr ⟨hcurrent, hrest⟩

/-- A new block brings in no routines. -/
theorem startBlock (h : e.HasRoutinesOf p) : e.startBlock.HasRoutinesOf p := by
  have hshapes : e.startBlock.shapes = ([], ∅) :: e.shapes := rfl
  rw [HasRoutinesOf, hshapes, List.forall_mem_cons]
  exact ⟨fun _ hr => absurd hr List.not_mem_nil, h⟩

/-- The end of a block brings in no routines. -/
theorem endBlock (h : e.HasRoutinesOf p) : e.endBlock.HasRoutinesOf p := by
  intro shape hshape
  rw [shapes_eq, Environment.endBlock] at hshape
  refine h shape ?_
  rw [shapes_eq]
  rcases List.mem_append.mp hshape with hinner | hglobal
  · obtain ⟨s, hs, rfl⟩ := List.mem_map.mp hinner
    exact List.mem_append_left _ (List.mem_map_of_mem (List.mem_of_mem_tail hs))
  · exact List.mem_append_right _ hglobal

/-- Routines of the program may be declared in the current scope. -/
theorem declareMethod (h : e.HasRoutinesOf p) (hr : p.Defines r) :
    (e.declareMethod r).HasRoutinesOf p := by
  rw [HasRoutinesOf, shapes_eq] at h
  rw [HasRoutinesOf, shapes_eq, Environment.declareMethod]
  rcases hinner : e.inner with _ | ⟨s, rest⟩ <;> rw [hinner] at h
  · rw [List.map_nil, List.nil_append, List.forall_mem_singleton] at h ⊢
    exact Scope.defines_declareMethod h hr
  · obtain ⟨hs, hrest⟩ := List.forall_mem_cons.mp h
    exact List.forall_mem_cons.mpr ⟨Scope.defines_declareMethod hs hr, hrest⟩

/-- They may be defined as functions. -/
theorem defineFunction (h : e.HasRoutinesOf p) (hr : p.Defines r) :
    (e.defineFunction r).HasRoutinesOf p := by
  rw [HasRoutinesOf, shapes_eq, List.forall_mem_append, List.forall_mem_singleton] at h
  rw [HasRoutinesOf, shapes_eq, List.forall_mem_append, List.forall_mem_singleton]
  exact ⟨h.1, Scope.defines_declareMethod h.2 hr⟩

/-- Several of them may be declared in the current scope. -/
theorem declareMethods {routines : List Routine} (h : e.HasRoutinesOf p)
    (hroutines : ∀ r ∈ routines, p.Defines r) :
    (routines.foldl Environment.declareMethod e).HasRoutinesOf p :=
  List.foldlRecOn (motive := HasRoutinesOf p) routines _ h fun _ he r hr =>
    he.declareMethod (hroutines r hr)

end Environment.HasRoutinesOf

/-- A program that is ready to run has its own functions in scope. -/
theorem hasRoutinesOf_ready (p : Program) (natives : List Native) :
    (State.ready p natives).environment.HasRoutinesOf p := by
  let motive := Environment.HasRoutinesOf p
  have hempty : motive {} := List.forall_mem_singleton.mpr fun _ hr => by cases hr
  have hnatives : motive (natives.foldl Environment.defineNative {}) :=
    List.foldlRecOn (motive := motive) natives _ hempty fun _ he _ _ => he
  exact List.foldlRecOn (motive := motive) p.functions.values _ hnatives
    fun _ he _ hr => he.defineFunction (.inl hr)

end ClassLang
